import CompiledViews.Proofs.Cache.Periods
import Mathlib.Tactic.IntervalCases

/-!
Many lookups of one key at the same time. However their steps follow one another, one of them makes
the view and all others answer with it.
-/

namespace CompiledViews

/-- Whether a lookup has come to the slot, and has neither found a view yet nor missed. -/
def Stage.undecided : Stage → Bool
  | .waiting _ | .holding _ => true
  | _ => false

def Stage.isStart : Stage → Bool
  | .start => true
  | _ => false

lemma countP_set_add {α : Type} (p : α → Bool) {xs : List α} {i : ℕ} {x : α} (y : α)
    (h : xs[i]? = some x) :
    (xs.set i y).countP p + (p x).toNat = xs.countP p + (p y).toNat := by
  obtain ⟨hlt, rfl⟩ := List.getElem?_eq_some_iff.mp h
  have hle := List.boole_getElem_le_countP (p := p) hlt
  rw [List.countP_set hlt]
  cases hp : p xs[i] <;> cases hp' : p y <;> simp_all

/-- How far the lookups of a key have come together: nobody has missed, one of them has and opens
the source or makes the view, it is about to store the view, or the view is stored. -/
inductive Phase where
  | quiet
  | making (who : Caller)
  | made (who : Caller)
  | stored (id : Nat)

namespace Phase

def entry? : Phase → Option Nat
  | .stored id => some id
  | _ => none

/-- Who makes the view. -/
def leader? : Phase → Option Caller
  | .making who | .made who => some who
  | _ => none

/-- How many lookups have missed. -/
def misses : Phase → Nat
  | .quiet => 0
  | _ => 1

/-- How many views have been made. -/
def compilations : Phase → Nat
  | .quiet | .making _ => 0
  | _ => 1

/-- The stages that a lookup can be at in a phase: it has decided nothing, or it makes the view, or
it leaves with it. -/
inductive Status (who : Caller) : Phase → Stage → Prop
  | waits {ph s} : s.undecided → Status who ph s
  | opens : Status who (.making who) .opening
  | makes {x} : Status who (.making who) (.making x)
  | stores {v} : Status who (.made who) (.storing v)
  | leaves {id} : Status who (.stored id) (.leaving (.view id))

end Phase

/-- No call is under way. -/
def Machine.Calm (m : Machine) : Prop :=
  ∀ (who : Caller) (q : Request) (s : Stage), m.call? who = some (q, s) → s = .start

namespace Run

variable (r : Run)

/-- Whether a lookup begins in turn `t`. -/
def looksUpIn (t : ℕ) : Bool :=
  match r.action t with
  | some (.advance who) =>
    match (r.state t).call? who with
    | some (.lookup _, .start) => true
    | _ => false
  | _ => false

/-- How many lookups begin from turn `a` on and before turn `z`. -/
def lookups (a z : ℕ) : ℕ := (List.range' a (z - a)).countP r.looksUpIn

/-- In turn `t` the compile of a call fails. -/
def Fails (who : Caller) (q : Request) (b t : ℕ) (e : ViewError) : Prop :=
  ∃ opened, r.Steps who q b t (.making opened) ∧
    (r.outcomeAt who q (.making opened) t).stage = .leaving (.error e)

/-- From turn `a` on and before turn `z`, some lookups begin of a key that has a source and no entry
at first, and other calls only read. No compile fails, and all calls have returned in the end. -/
structure Rush (key : String) (a z : ℕ) : Prop where
  le : a ≤ z
  known : (r.state a).cache.registry.contains key
  absent : r.entryAt key a = none
  before : (r.state a).Calm
  begins : ∀ (who : Caller) (q : Request) (t : ℕ), a ≤ t → t < z → r.Begins who q t →
    (∃ path, q = .lookup path ∧ Path.normalizeLogical path = key) ∨ ∃ path, q = .get path
  compiles : ∀ (who : Caller) (q : Request) (b t : ℕ) (e : ViewError), a ≤ t → t < z →
    ¬ r.Fails who q b t e
  after : (r.state z).Calm

/-- The lookups that have begun from turn `a` on are in a phase at time `t`. -/
structure Herd (key : String) (a : ℕ) (ph : Phase) (t : ℕ) : Prop where
  known : (r.state t).cache.registry.contains key
  entry : r.entryAt key t = ph.entry?
  misses : (r.state t).cache.counts.misses = (r.state a).cache.counts.misses + ph.misses
  compilations : (r.state t).cache.counts.compilations =
    (r.state a).cache.counts.compilations + ph.compilations
  begun : (r.state t).cache.workshop.begun = (r.state a).cache.workshop.begun + ph.compilations
  lookups : (r.state t).cache.counts.hits + (r.state t).cache.counts.misses +
      (r.state t).stages.countP Stage.undecided =
    (r.state a).cache.counts.hits + (r.state a).cache.counts.misses + r.lookups a t
  leads : ∀ (who : Caller), ph.leader? = some who →
    ∃ q s, (r.state t).call? who = some (q, s) ∧ s.builds ∧ q.key? = some key
  status : ∀ (who : Caller) (q : Request) (s : Stage), (r.state t).call? who = some (q, s) →
    s ≠ .start → (∃ path, q = .lookup path ∧ Path.normalizeLogical path = key) ∧ ph.Status who s
  answers : ∀ (who : Caller) (path : String) (b e : ℕ) (x : Answer), a ≤ b → e < t →
    r.Returns who (.lookup path) b e x → ∃ id, x = .view id ∧ ph = .stored id

variable {r} {key path : String} {a b t z : ℕ} {who : Caller} {q : Request} {s : Stage}
  {o : Outcome} {ph ph' : Phase}

lemma Steps.looksUpIn_eq (h : r.Steps who (.lookup path) b t s) : r.looksUpIn t = s.isStart := by
  simp only [looksUpIn, h.2, h.1.call?]
  cases s <;> rfl

lemma lookups_succ (hat : a ≤ t) :
    r.lookups a (t + 1) = r.lookups a t + (r.looksUpIn t).toNat := by
  rw [lookups, turns_succ hat, List.countP_append, lookups]
  cases hl : r.looksUpIn t <;> simp [hl]

namespace Herd

/-- What a pause of the calls leaves as it is. -/
lemma of_rests (h : r.Herd key a ph t) (hat : a ≤ t)
    (hno : ∀ who, r.action t ≠ some (.advance who)) (hrests : (r.state t).Rests (r.state (t + 1))) :
    r.Herd key a ph (t + 1) := by
  have hlooks : r.looksUpIn t = false := by
    unfold looksUpIn
    split
    case h_1 who ha => exact absurd ha (hno who)
    · rfl
  constructor
  · exact hrests.cache ▸ h.known
  · rw [entryAt, hrests.cache]
    exact h.entry
  · rw [hrests.cache]
    exact h.misses
  · rw [hrests.cache]
    exact h.compilations
  · rw [hrests.cache]
    exact h.begun
  · have hstages : (r.state (t + 1)).stages.countP Stage.undecided =
        (r.state t).stages.countP Stage.undecided := by
      rcases hrests.stages with hsame | hnew
      · rw [hsame]
      · simp [hnew, Stage.undecided]
    rw [hrests.cache, hstages, lookups_succ hat, hlooks]
    exact h.lookups
  · intro who hwho
    obtain ⟨q, s, hcall, hs, hq⟩ := h.leads who hwho
    exact ⟨q, s, call?_of_ne hcall (hno who), hs, hq⟩
  · intro who q s hcall hs
    exact h.status who q s (hrests.call?_of_ne_start hcall hs) hs
  · intro who path b e x hab het hreturns
    rcases Nat.lt_succ_iff_lt_or_eq.mp het with het | rfl
    · exact h.answers who path b e x hab het hreturns
    · obtain ⟨s, c, hsteps, -⟩ := hreturns
      exact absurd hsteps.2 (hno who)

/-- What a move has to do to bring the lookups into a phase that suits all of them. -/
lemma of_moves (h : r.Herd key a ph t) (hat : a ≤ t) (ha : r.action t = some (.advance who))
    (hmoves : (r.state t).Moves (r.state (t + 1)) who q s o)
    (hentry : Cache.entry? (o.cache (r.state t).cache) key = ph'.entry?)
    (hmisses : (o.cache (r.state t).cache).counts.misses + ph.misses =
      (r.state t).cache.counts.misses + ph'.misses)
    (hcompilations : (o.cache (r.state t).cache).counts.compilations + ph.compilations =
      (r.state t).cache.counts.compilations + ph'.compilations)
    (hbegun : (o.cache (r.state t).cache).workshop.begun + ph.compilations =
      (r.state t).cache.workshop.begun + ph'.compilations)
    (hlookups : (o.cache (r.state t).cache).counts.hits +
        (o.cache (r.state t).cache).counts.misses + o.stage.undecided.toNat =
      (r.state t).cache.counts.hits + (r.state t).cache.counts.misses + s.undecided.toNat +
        (r.looksUpIn t).toNat)
    (hleads : ∀ w, ph'.leader? = some w → w ≠ who ∧ ph.leader? = some w ∨
      w = who ∧ q.key? = some key ∧ o.stage.builds)
    (hstatus : o.stage ≠ .start →
      (∃ path, q = .lookup path ∧ Path.normalizeLogical path = key) ∧ ph'.Status who o.stage)
    (hothers : ∀ w s, w ≠ who → ph.Status w s → ph'.Status w s)
    (hkeeps : ∀ id, ph = .stored id → ph' = .stored id)
    (hanswers : ∀ path x c, q = .lookup path → o = .finished x c →
      ∃ id, x = .view id ∧ ph' = .stored id) : r.Herd key a ph' (t + 1) := by
  constructor
  · rw [hmoves.cache, hmoves.move.registry_eq]
    exact h.known
  · rw [entryAt, hmoves.cache]
    exact hentry
  · have := h.misses
    rw [hmoves.cache]
    omega
  · have := h.compilations
    rw [hmoves.cache]
    omega
  · have := h.begun
    rw [hmoves.cache]
    omega
  · have hcount := countP_set_add Stage.undecided o.stage hmoves.stage
    have := h.lookups
    rw [hmoves.cache, hmoves.stages, lookups_succ hat]
    omega
  · intro w hw
    rcases hleads w hw with ⟨hne, hw⟩ | ⟨rfl, hq, hbuilds⟩
    · obtain ⟨q', s', hcall, hs'⟩ := h.leads w hw
      exact ⟨q', s', (hmoves.others w hne).trans hcall, hs'⟩
    · have hstart : o.stage ≠ .start := by
        intro hs
        simp [hs, Stage.builds] at hbuilds
      exact ⟨q, o.stage, hmoves.going hstart, hbuilds, hq⟩
  · intro w q' s' hcall hs'
    by_cases hw : w = who
    · subst hw
      obtain ⟨rfl, rfl⟩ := hmoves.call_of_stage hcall hs'
      exact hstatus hs'
    · rw [hmoves.others w hw] at hcall
      obtain ⟨hq', hstatus'⟩ := h.status w q' s' hcall hs'
      exact ⟨hq', hothers w s' hw hstatus'⟩
  · intro w path b e x hab het hreturns
    rcases Nat.lt_succ_iff_lt_or_eq.mp het with het | rfl
    · obtain ⟨id, hx, hph⟩ := h.answers w path b e x hab het hreturns
      exact ⟨id, hx, hkeeps id hph⟩
    · obtain ⟨s', c, hsteps, ho⟩ := hreturns
      obtain rfl : who = w := by simpa [ha] using hsteps.2
      obtain ⟨rfl, rfl⟩ : q = .lookup path ∧ s = s' := by
        simpa [hmoves.call] using hsteps.1.call?
      exact hanswers path x c rfl (hmoves.step.symm.trans ho)

/-- A lookup that comes to a stage without deciding anything leaves the phase as it is. -/
lemma of_undecided (h : r.Herd (Path.normalizeLogical path) a ph t) (hat : a ≤ t)
    (ha : r.action t = some (.advance who))
    (hmoves : (r.state t).Moves (r.state (t + 1)) who (.lookup path) s o)
    (hs : s.builds = false) (ho : o.stage.undecided)
    (hentry : Cache.entry? (o.cache (r.state t).cache) (Path.normalizeLogical path) =
      (r.state t).cache.entry? (Path.normalizeLogical path))
    (hcounts : (o.cache (r.state t).cache).counts = (r.state t).cache.counts)
    (hworkshop : (o.cache (r.state t).cache).workshop = (r.state t).cache.workshop)
    (hlooks : s.undecided.toNat + (r.looksUpIn t).toNat = 1) :
    r.Herd (Path.normalizeLogical path) a ph (t + 1) := by
  refine h.of_moves hat ha hmoves (hentry.trans h.entry) (by rw [hcounts]) (by rw [hcounts])
    (by rw [hworkshop]) (by rw [hcounts, ho, Nat.add_assoc _ s.undecided.toNat, hlooks]; rfl)
    (fun w hw => .inl ⟨?_, hw⟩) (fun _ => ⟨⟨path, rfl, rfl⟩, .waits ho⟩) (fun _ _ _ hs => hs)
    (fun _ hph => hph) ?_
  · rintro rfl
    obtain ⟨q, s', hcall, hs', -⟩ := h.leads w hw
    rw [hmoves.call] at hcall
    cases hcall
    simp [hs] at hs'
  · rintro _ x c - rfl
    simp [Stage.undecided] at ho

/-- A lookup that finds the view is answered with it, at once or when it leaves. -/
lemma of_found {id : Nat} (h : r.Herd (Path.normalizeLogical path) a ph t) (hat : a ≤ t)
    (ha : r.action t = some (.advance who))
    (hmoves : (r.state t).Moves (r.state (t + 1)) who (.lookup path) s o)
    (he : (r.state t).cache.entry? (Path.normalizeLogical path) = some id)
    (hcache : o.cache (r.state t).cache = (r.state t).cache.hit)
    (ho : o = .finished (.view id) (r.state t).cache.hit ∨
      o = .going (.leaving (.view id)) (r.state t).cache.hit)
    (hlooks : s.undecided.toNat + (r.looksUpIn t).toNat = 1) :
    ∃ ph', r.Herd (Path.normalizeLogical path) a ph' (t + 1) := by
  obtain rfl : ph = .stored id := by
    have hentry := h.entry.symm.trans he
    cases ph <;> simp_all [Phase.entry?]
  have hdecided : o.stage.undecided = false := by rcases ho with rfl | rfl <;> rfl
  refine ⟨.stored id, h.of_moves hat ha hmoves (by rw [hcache]; exact he) (by rw [hcache]; rfl)
    (by rw [hcache]; rfl) (by rw [hcache]; rfl) ?_ (fun w hw => by cases hw) ?_
    (fun _ _ _ hs => hs) (fun _ hph => hph) ?_⟩
  · rw [hcache, hdecided, Nat.add_assoc _ s.undecided.toNat, hlooks]
    simp [Cache.count]
    omega
  · rcases ho with rfl | rfl
    · simp
    · exact fun _ => ⟨⟨path, rfl, rfl⟩, .leaves⟩
  · rintro _ x c - rfl
    rcases ho with ho | ho <;> cases ho
    exact ⟨id, rfl, rfl⟩

/-- Whoever builds the view is the leader of the phase. -/
lemma phase_eq (h : r.Herd key a ph t) (hcall : (r.state t).call? who = some (q, s))
    (hs : s.builds) :
    ph = .making who ∧ (s = .opening ∨ ∃ x, s = .making x) ∨
      ph = .made who ∧ ∃ v, s = .storing v := by
  obtain ⟨-, hstatus⟩ := h.status who q s hcall (by rintro rfl; simp [Stage.builds] at hs)
  cases hstatus with
  | waits hund => cases s <;> simp_all [Stage.undecided, Stage.builds]
  | opens => exact .inl ⟨rfl, .inl rfl⟩
  | makes => exact .inl ⟨rfl, .inr ⟨_, rfl⟩⟩
  | stores => exact .inr ⟨rfl, _, rfl⟩
  | leaves => simp [Stage.builds] at hs

/-- The lookup that has come to the slot first misses. -/
lemma of_miss {e : Bool} (h : r.Herd (Path.normalizeLogical path) a ph t) (hat : a ≤ t)
    (ha : r.action t = some (.advance who))
    (hmoves : (r.state t).Moves (r.state (t + 1)) who (.lookup path) (.holding e)
      (.going .opening (r.state t).cache.miss))
    (he : (r.state t).cache.entry? (Path.normalizeLogical path) = none)
    (hlooks : r.looksUpIn t = false) :
    r.Herd (Path.normalizeLogical path) a (.making who) (t + 1) := by
  -- whoever makes the view already would have the slot
  have hnone : ph.leader? = none := by
    cases hw : ph.leader? with
    | none => rfl
    | some w =>
      obtain ⟨q, s, hcall, hs, hq⟩ := h.leads w hw
      obtain rfl := (r.coherent t).holder_unique hcall hmoves.call (Stage.holds_of_builds hs) rfl
        hq rfl
      rw [hmoves.call] at hcall
      cases hcall
      simp [Stage.builds] at hs
  obtain rfl : ph = .quiet := by
    have hentry := h.entry.symm.trans he
    cases ph <;> simp_all [Phase.entry?, Phase.leader?]
  refine h.of_moves hat ha hmoves he rfl rfl rfl ?_
    (fun w hw => .inr ⟨(Option.some.inj hw).symm, rfl, rfl⟩)
    (fun _ => ⟨⟨path, rfl, rfl⟩, .opens⟩) (fun w s _ hs => ?_) (fun _ hph => by cases hph)
    (fun _ _ _ _ hfinished => by cases hfinished)
  · rw [hlooks]
    simp [Cache.count, Stage.undecided]
    omega
  · cases hs with
    | waits hund => exact .waits hund

/-- The lookup that has missed makes the view. -/
lemma of_made {content : Content} {v : View} (h : r.Herd (Path.normalizeLogical path) a ph t)
    (hat : a ≤ t) (ha : r.action t = some (.advance who))
    (hmoves : (r.state t).Moves (r.state (t + 1)) who (.lookup path) (.making (.ok content))
      (.going (.storing v)
        ((r.state t).cache.make (Path.normalizeLogical path) content).2.compiled))
    (hlooks : r.looksUpIn t = false) :
    r.Herd (Path.normalizeLogical path) a (.made who) (t + 1) := by
  obtain rfl : ph = .making who := by simpa using h.phase_eq hmoves.call rfl
  refine h.of_moves hat ha hmoves h.entry rfl rfl
    (by simp [Phase.compilations, Cache.count, Cache.begun_make]) (by rw [hlooks]; rfl)
    (fun w hw => .inr ⟨(Option.some.inj hw).symm, rfl, rfl⟩)
    (fun _ => ⟨⟨path, rfl, rfl⟩, .stores⟩) (fun w s hne hs => ?_) (fun _ hph => by cases hph)
    (fun _ _ _ _ hfinished => by cases hfinished)
  cases hs with
  | waits hund => exact .waits hund
  | opens | makes => exact absurd rfl hne

/-- The lookup that has made the view stores it. -/
lemma of_stored {v : View} (h : r.Herd (Path.normalizeLogical path) a ph t) (hat : a ≤ t)
    (ha : r.action t = some (.advance who))
    (hmoves : (r.state t).Moves (r.state (t + 1)) who (.lookup path) (.storing v)
      (.going (.leaving (.view ((r.state t).cache.store (Path.normalizeLogical path) v).1))
        ((r.state t).cache.store (Path.normalizeLogical path) v).2))
    (hlooks : r.looksUpIn t = false) :
    r.Herd (Path.normalizeLogical path) a (.stored (r.state t).cache.views.length) (t + 1) := by
  obtain rfl : ph = .made who := by simpa using h.phase_eq hmoves.call rfl
  refine h.of_moves hat ha hmoves (by simp [Cache.entry?_store, Phase.entry?])
    (by simp [Phase.misses]) (by simp [Phase.compilations]) (by simp [Phase.compilations])
    (by rw [hlooks]; simp [Stage.undecided]) (fun w hw => by cases hw)
    (fun _ => ⟨⟨path, rfl, rfl⟩, ?_⟩) (fun w s hne hs => ?_) (fun _ hph => by cases hph)
    (fun _ _ _ _ hfinished => by cases hfinished)
  · rw [Outcome.stage_going, Cache.store_fst]
    exact .leaves
  · cases hs with
    | waits hund => exact .waits hund
    | stores => exact absurd rfl hne

/-- A lookup that leaves is answered with the view. -/
lemma of_left {x : Answer} (h : r.Herd (Path.normalizeLogical path) a ph t) (hat : a ≤ t)
    (ha : r.action t = some (.advance who))
    (hmoves : (r.state t).Moves (r.state (t + 1)) who (.lookup path) (.leaving x)
      (.finished x ((r.state t).cache.freeSlot (Path.normalizeLogical path))))
    (hlooks : r.looksUpIn t = false) : r.Herd (Path.normalizeLogical path) a ph (t + 1) := by
  obtain ⟨id, rfl, rfl⟩ : ∃ id, x = .view id ∧ ph = .stored id := by
    obtain ⟨-, hstatus⟩ := h.status who _ _ hmoves.call (by simp)
    cases hstatus with
    | waits hund => simp [Stage.undecided] at hund
    | leaves => exact ⟨_, rfl, rfl⟩
  refine h.of_moves hat ha hmoves h.entry rfl rfl rfl (by rw [hlooks]; rfl)
    (fun w hw => by cases hw) (fun hne => absurd rfl hne) (fun _ _ _ hs => hs)
    (fun _ hph => hph) ?_
  rintro _ x c - ho
  cases ho
  exact ⟨id, rfl, rfl⟩

/-- After a move of a lookup the lookups are in some phase again, unless a compile fails. -/
theorem of_lookup (h : r.Herd (Path.normalizeLogical path) a ph t) (hat : a ≤ t)
    (hsteps : r.Steps who (.lookup path) b t s)
    (hfails : ∀ e, ¬ r.Fails who (.lookup path) b t e) :
    ∃ ph', r.Herd (Path.normalizeLogical path) a ph' (t + 1) := by
  have ha := hsteps.2
  have hmoves := hsteps.moves
  have hmove := hsteps.move
  have hlooks := hsteps.looksUpIn_eq
  have hfails' : ∀ opened e, s = .making opened →
      (r.outcomeAt who (.lookup path) s t).stage ≠ .leaving (.error e) := by
    rintro opened e rfl hstage
    exact hfails e ⟨opened, hsteps, hstage⟩
  generalize r.outcomeAt who (.lookup path) s t = o at hmoves hmove hfails'
  cases hmove with
  | hit hq he =>
    cases hq
    exact h.of_found hat ha hmoves he rfl (.inl rfl) (by rw [hlooks]; rfl)
  | unknown hq _ hr =>
    cases hq
    exact absurd h.known hr
  | ask =>
    exact ⟨ph, h.of_undecided hat ha hmoves rfl rfl (by simp) (by simp) (by simp)
      (by rw [hlooks]; rfl)⟩
  | take => exact ⟨ph, h.of_undecided hat ha hmoves rfl rfl rfl rfl rfl (by rw [hlooks]; rfl)⟩
  | hitLate hq he =>
    cases hq
    exact h.of_found hat ha hmoves he rfl (.inr rfl) (by rw [hlooks]; rfl)
  | miss hq he =>
    cases hq
    exact ⟨.making who, h.of_miss hat ha hmoves he hlooks⟩
  | opens hq =>
    cases hq
    obtain rfl : ph = .making who := by simpa using h.phase_eq hmoves.call rfl
    exact ⟨.making who, h.of_moves hat ha hmoves h.entry rfl rfl rfl (by rw [hlooks]; rfl)
      (fun w hw => .inr ⟨(Option.some.inj hw).symm, rfl, rfl⟩)
      (fun _ => ⟨⟨path, rfl, rfl⟩, .makes⟩) (fun _ _ _ hs => hs) (fun _ hph => hph)
      (fun _ _ _ _ hfinished => by cases hfinished)⟩
  | unopened | fails => exact absurd rfl (hfails' _ _ rfl)
  | makes hq =>
    cases hq
    exact ⟨_, h.of_made hat ha hmoves hlooks⟩
  | stores hq =>
    cases hq
    exact ⟨_, h.of_stored hat ha hmoves hlooks⟩
  | leaves hq =>
    cases hq
    exact ⟨ph, h.of_left hat ha hmoves hlooks⟩
  | evict hq | forget hq | ignore hq | rebuilt hq | rebuild hq | evictLate hq | absent hq =>
    simp [Request.invalidationKey?] at hq

/-- A call that only reads changes nothing. -/
lemma of_get (h : r.Herd key a ph t) (hat : a ≤ t) (hsteps : r.Steps who (.get path) b t .start) :
    r.Herd key a ph (t + 1) := by
  have hmoves := hsteps.moves
  have hmove := hsteps.move
  have hlooks : r.looksUpIn t = false := by simp only [looksUpIn, hsteps.2, hsteps.1.call?]
  generalize r.outcomeAt who (.get path) .start t = o at hmoves hmove
  cases hmove with
  | gets =>
    refine h.of_moves hat hsteps.2 hmoves h.entry rfl rfl rfl (by rw [hlooks]; rfl)
      (fun w hw => .inl ⟨?_, hw⟩) (fun hne => absurd rfl hne) (fun _ _ _ hs => hs)
      (fun _ hph => hph) (fun _ _ _ hq => by cases hq)
    rintro rfl
    obtain ⟨q, s, hcall, hs, -⟩ := h.leads w hw
    rw [hmoves.call] at hcall
    cases hcall
    simp [Stage.builds] at hs
  | hit hq | unknown hq => simp [Request.lookupKey?] at hq
  | ask hq => simp [Request.key?] at hq
  | evict hq | forget hq | ignore hq => simp [Request.invalidationKey?] at hq

end Herd

/-- Nobody has decided anything while no call is under way. -/
lemma countP_undecided_of_calm (h : (r.state t).Calm) :
    (r.state t).stages.countP Stage.undecided = 0 := by
  refine List.countP_eq_zero.mpr fun s hs => ?_
  obtain ⟨cl, hmem, rfl⟩ := List.mem_map.mp hs
  obtain ⟨who, hwho⟩ := List.getElem?_of_mem hmem
  have hstart : cl.stage = .start := by
    cases htodo : cl.todo with
    | nil => exact (r.tidy t).rests who cl hwho htodo
    | cons q rest =>
      exact h who q cl.stage (Machine.call?_eq_some_iff.mpr ⟨cl, rest, hwho, htodo, rfl⟩)
  simp [hstart, Stage.undecided]

namespace Rush

lemma herd_start (h : r.Rush key a z) : r.Herd key a .quiet a := by
  refine ⟨h.known, h.absent, rfl, rfl, rfl, ?_, fun w hw => (by cases hw), ?_, ?_⟩
  · simp [countP_undecided_of_calm h.before, Run.lookups]
  · intro who q s hcall hs
    exact absurd (h.before who q s hcall) hs
  · intro who path b e x hab hea hreturns
    have := hreturns.le
    omega

/-- The lookups are in some phase at any time until all have returned. -/
theorem exists_herd (h : r.Rush key a z) (hat : a ≤ t) (htz : t ≤ z) : ∃ ph, r.Herd key a ph t := by
  induction hat with
  | refl => exact ⟨.quiet, h.herd_start⟩
  | @step t hat ih =>
    obtain ⟨ph, hherd⟩ := ih (Nat.le_of_succ_le htz)
    rcases r.moves_or_rests t with ⟨who, q, s, o, ha, hmoves⟩ | ⟨hno, hrests⟩
    · by_cases hs : s = .start
      · subst hs
        have hreach : r.Reaches who q t t .start := .begins ha hmoves.call
        rcases h.begins who q t hat htz ⟨ha, hmoves.call⟩ with ⟨path, rfl, rfl⟩ | ⟨path, rfl⟩
        · exact hherd.of_lookup hat ⟨hreach, ha⟩ fun e => h.compiles who _ t t e hat htz
        · exact ⟨ph, hherd.of_get hat ⟨hreach, ha⟩⟩
      · obtain ⟨b, hreach⟩ := exists_reaches hs hmoves.call
        obtain ⟨⟨path, rfl, rfl⟩, -⟩ := hherd.status who q s hmoves.call hs
        exact hherd.of_lookup hat ⟨hreach, ha⟩ fun e => h.compiles who _ b t e hat htz
    · exact ⟨ph, hherd.of_rests hat hno hrests⟩

lemma exists_begins_of_lookups_pos (hsome : 0 < r.lookups a z) :
    ∃ who path b, a ≤ b ∧ b < z ∧ r.Begins who (.lookup path) b := by
  obtain ⟨b, hb, hlooks⟩ := List.countP_pos_iff.mp hsome
  obtain ⟨hab, hbz⟩ := List.mem_range'_1.mp hb
  unfold looksUpIn at hlooks
  split at hlooks
  case h_1 who ha =>
    split at hlooks
    case h_1 path hcall => exact ⟨who, path, b, hab, by omega, ha, hcall⟩
    · cases hlooks
  · cases hlooks

/-- One of the lookups makes the view, and all are answered with it. -/
theorem answers (h : r.Rush key a z) (hsome : 0 < r.lookups a z) :
    ∃ id, (∀ who path b, a ≤ b → b < z → r.Begins who (.lookup path) b →
        ∃ e, e < z ∧ r.Returns who (.lookup path) b e (.view id)) ∧
      (r.state z).cache.counts.misses = (r.state a).cache.counts.misses + 1 ∧
      (r.state z).cache.counts.hits + 1 = (r.state a).cache.counts.hits + r.lookups a z ∧
      (r.state z).cache.counts.compilations = (r.state a).cache.counts.compilations + 1 ∧
      (r.state z).cache.workshop.begun = (r.state a).cache.workshop.begun + 1 := by
  obtain ⟨ph, hherd⟩ := h.exists_herd h.le (Nat.le_refl z)
  have hanswered : ∀ who path b, a ≤ b → b < z → r.Begins who (.lookup path) b →
      ∃ e id, e < z ∧ r.Returns who (.lookup path) b e (.view id) ∧ ph = .stored id := by
    intro who path b hab hbz hbegins
    obtain ⟨e, x, hez, hreturns⟩ := hbegins.returned hbz (h.after who _)
    obtain ⟨id, rfl, hph⟩ := hherd.answers who path b e x hab hez hreturns
    exact ⟨e, id, hez, hreturns, hph⟩
  obtain ⟨id, rfl⟩ : ∃ id, ph = .stored id := by
    obtain ⟨who, path, b, hab, hbz, hbegins⟩ := exists_begins_of_lookups_pos hsome
    obtain ⟨e, id, -, -, hph⟩ := hanswered who path b hab hbz hbegins
    exact ⟨id, hph⟩
  have hmisses := hherd.misses
  have hlookups := hherd.lookups
  rw [countP_undecided_of_calm h.after] at hlookups
  refine ⟨id, fun who path b hab hbz hbegins => ?_, hmisses, ?_, hherd.compilations, hherd.begun⟩
  · obtain ⟨e, id', hez, hreturns, hph⟩ := hanswered who path b hab hbz hbegins
    cases hph
    exact ⟨e, hez, hreturns⟩
  · simp only [Phase.misses] at hmisses
    omega

end Rush

/-- No two calls make a view for one key at the same time, a view that is stored finds no entry, in
a period in which the entry of a key is not taken out one view at most is made for it and the
lookups return one view, and of many lookups of a key without an entry one makes the view for
all. -/
theorem one_view_per_period (r : Run) :
    (∀ t key who who' q q' s s', (r.state t).call? who = some (q, s) →
      (r.state t).call? who' = some (q', s') → q.key? = some key → q'.key? = some key →
      s.builds → s'.builds → who = who') ∧
    (∀ key who q b t v, r.Steps who q b t (.storing v) → q.key? = some key →
      r.entryAt key t = none) ∧
    (∀ key a z, r.Undisturbed key a z →
      (∀ who who' q q' b b' m m' content content' v v', r.Makes who q b m key content v →
        r.Makes who' q' b' m' key content' v' → a < m ∧ m < z → a < m' ∧ m' < z → m = m') ∧
      (∀ who who' path path' b b' e e' id id', r.Returns who (.lookup path) b e (.view id) →
        r.Returns who' (.lookup path') b' e' (.view id') → Path.normalizeLogical path = key →
        Path.normalizeLogical path' = key → r.EntryIn key a z id → r.EntryIn key a z id' →
        id = id')) ∧
    (∀ key a z, r.Rush key a z → 0 < r.lookups a z →
      ∃ id, (∀ who path b, a ≤ b → b < z → r.Begins who (.lookup path) b →
          ∃ e, e < z ∧ r.Returns who (.lookup path) b e (.view id)) ∧
        (r.state z).cache.counts.misses = (r.state a).cache.counts.misses + 1 ∧
        (r.state z).cache.counts.hits + 1 = (r.state a).cache.counts.hits + r.lookups a z ∧
        (r.state z).cache.counts.compilations = (r.state a).cache.counts.compilations + 1 ∧
        (r.state z).cache.workshop.begun = (r.state a).cache.workshop.begun + 1) := by
  refine ⟨?_, fun key who q b t v h hq => h.entryAt_eq_none hq, fun key a z hperiod => ⟨?_, ?_⟩,
    fun key a z h hsome => h.answers hsome⟩
  · intro t key who who' q q' s s' hcall hcall' hq hq' hs hs'
    exact (r.coherent t).holder_unique hcall hcall' (Stage.holds_of_builds hs)
      (Stage.holds_of_builds hs') hq hq'
  · intro who who' q q' b b' m m' content content' v v' h h' hm hm'
    exact hperiod.made_unique h h' hm hm'
  · intro who who' path path' b b' e e' id id' _ _ _ _ h h'
    exact hperiod.entry_unique h h'

/-- Two clients look the same key up, and come to its slot one after the other. -/
def twoLookups : Run :=
  .ofActions .blank [.call [.lookup "/a"], .call [.lookup "/a"], .advance 1, .advance 2,
    .advance 1, .advance 1, .advance 1, .advance 1, .advance 1, .advance 1,
    .advance 2, .advance 2, .advance 2] Machine.exists_blank_eq_fresh rfl

lemma rush_twoLookups : twoLookups.Rush "/a" 0 13 where
  le := by decide
  known := rfl
  absent := rfl
  before who q s hcall := by
    rcases who with _ | w <;> cases hcall
  begins who q t _ htz hbegins := by
    obtain ⟨ha, hcall⟩ := hbegins
    interval_cases t <;> cases ha <;> cases hcall
    all_goals exact .inl ⟨"/a", rfl, rfl⟩
  compiles who q b t e _ htz hfails := by
    obtain ⟨opened, ⟨hreach, ha⟩, hstage⟩ := hfails
    have hcall := hreach.call?
    interval_cases t <;> cases ha <;> cases hcall
    cases hstage
  after who q s hcall := by
    rcases who with _ | _ | _ | w <;> cases hcall

theorem one_view_for_two_lookups : ∃ id,
    (∀ who path b, 0 ≤ b → b < 13 → twoLookups.Begins who (.lookup path) b →
      ∃ e, e < 13 ∧ twoLookups.Returns who (.lookup path) b e (.view id)) ∧
    (twoLookups.state 13).cache.counts.misses = 1 ∧
    (twoLookups.state 13).cache.counts.hits + 1 = 2 := by
  obtain ⟨id, hanswers, hmisses, hhits, -⟩ :=
    (one_view_per_period twoLookups).2.2.2 "/a" 0 13 rush_twoLookups (by decide)
  exact ⟨id, hanswers, hmisses, hhits⟩

end Run

end CompiledViews
