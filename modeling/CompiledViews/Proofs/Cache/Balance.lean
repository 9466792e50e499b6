import CompiledViews.Proofs.Cache.Tally

/-!
What the counts of a cache add up to. A compilation is an entry, an eviction or a view on its way
to be stored; a lookup that knows its source is a hit, a miss or undecided; and a compile is begun
by a miss or by an invalidation that has taken an entry out and finds no other in its place.
-/

namespace CompiledViews

namespace Request

/-- A view that has been made and not stored. -/
def unstored : Request → Stage → ℕ
  | _, .storing _ => 1
  | _, _ => 0

/-- A lookup that has not found a view and has not missed. -/
def undecided (q : Request) (s : Stage) : ℕ :=
  if q.lookupKey?.isSome then s.undecided.toNat else 0

/-- A compile that is due and has neither yielded a view nor failed. -/
def unmade : Request → Stage → ℕ
  | _, .opening | _, .making _ => 1
  | .invalidate _, .waiting true | .invalidate _, .holding true => 1
  | _, _ => 0

variable (q : Request) (a : Answer) (c : Cache)

@[simp] lemma unstored_start : unstored q .start = 0 := rfl
@[simp] lemma unstored_leaving : unstored q (.leaving a) = 0 := rfl
@[simp] lemma undecided_start : undecided q .start = 0 := by simp [undecided, Stage.undecided]
@[simp] lemma undecided_leaving : undecided q (.leaving a) = 0 := by
  simp [undecided, Stage.undecided]
@[simp] lemma unmade_start : unmade q .start = 0 := by cases q <;> rfl
@[simp] lemma unmade_opening : unmade q .opening = 1 := rfl
@[simp] lemma unmade_leaving : unmade q (.leaving a) = 0 := by cases q <;> rfl

/-! Nothing is left to do once a request is settled. -/

@[simp] lemma unstored_settle : unstored q (q.settle a c).stage = 0 := by
  rcases Outcome.stage_settle q a c with h | ⟨id, h⟩ <;> simp [h, unstored]

@[simp] lemma undecided_settle : undecided q (q.settle a c).stage = 0 := by
  rcases Outcome.stage_settle q a c with h | ⟨id, h⟩ <;> simp [h, undecided, Stage.undecided]

@[simp] lemma unmade_settle : unmade q (q.settle a c).stage = 0 := by
  rcases Outcome.stage_settle q a c with h | ⟨id, h⟩ <;> simp [h, unmade]

lemma answer_eq_of_settle {q : Request} {a a' : Answer} {c c' : Cache}
    (h : q.settle a c = .finished a' c') : a' = a := by
  unfold settle at h
  split at h <;> cases h
  rfl

lemma unmade_of_lookupKey? {q : Request} {key : String} (h : q.lookupKey? = some key)
    (evicted : Bool) : unmade q (.waiting evicted) = 0 ∧ unmade q (.holding evicted) = 0 := by
  cases q <;> cases evicted <;> simp_all [lookupKey?, unmade]

lemma unmade_of_invalidationKey? {q : Request} {key : String} (h : q.invalidationKey? = some key)
    (evicted : Bool) : unmade q (.waiting evicted) = evicted.toNat ∧
      unmade q (.holding evicted) = evicted.toNat := by
  cases q <;> cases evicted <;> simp_all [invalidationKey?, unmade]

lemma unmade_waiting_eq_holding (q : Request) (evicted : Bool) :
    unmade q (.holding evicted) = unmade q (.waiting evicted) := by
  cases q <;> cases evicted <;> rfl

lemma lookupKey?_of_invalidationKey? {q : Request} {key : String}
    (h : q.invalidationKey? = some key) : q.lookupKey? = none := by
  cases q <;> simp_all [invalidationKey?, lookupKey?]

lemma invalidationKey?_of_key? {q : Request} {key : String} (h : q.key? = some key)
    (hq : q.lookupKey? ≠ some key) : q.invalidationKey? = some key := by
  cases q <;> simp_all [lookupKey?, invalidationKey?, key?]

lemma invalidationKey?_of_lookupKey? {q : Request} {key : String} (h : q.lookupKey? = some key) :
    q.invalidationKey? = none := by
  cases q <;> simp_all [invalidationKey?, lookupKey?]

end Request

open Request

/-- Whatever goes wrong in the workshop, there was a source. -/
theorem Workshop.cause_ne_of_make {w : Workshop} {path : String} {content : Content} {e : ViewError}
    (h : (w.make path content).1 = .error e) : e.cause ≠ .unknownSource := by
  simp only [make] at h
  split at h
  · cases h
    simp
  · cases h
    simp
  · split at h
    · cases h
      simp
    · split at h
      · cases h
        simp
      · cases h

namespace Cache

variable {c : Cache} {t : FileTree} {who : Caller} {q : Request} {s : Stage} {o : Outcome}

lemma cause_ne_of_openSource {key : String} {e : ViewError} (hr : c.registry.contains key)
    (h : c.openSource t key = .error e) : e.cause ≠ .unknownSource := by
  obtain ⟨source, hsource⟩ := Option.isSome_iff_exists.mp hr
  simp only [openSource, hsource] at h
  cases ho : source.open_ t with
  | error x =>
    rw [ho] at h
    cases h
    simp
  | ok content =>
    rw [ho] at h
    cases h

/-- An error that a call comes to is none about a source that is not there. -/
theorem Move.cause_ne {e : ViewError} (h : c.Move t who q s o)
    (hknown : ∀ key, s.wants → q.key? = some key → c.registry.contains key)
    (hs : s = .making (.error e) → e.cause ≠ .unknownSource)
    (ho : o.stage = .making (.error e) ∨ o.stage = .leaving (.error e)) :
    e.cause ≠ .unknownSource := by
  cases h with
  | hit | leaves => exact absurd ho (not_or.mpr ⟨stage_settle_ne rfl, stage_settle_ne rfl⟩)
  | @opens q key hq =>
    exact cause_ne_of_openSource (hknown key rfl hq) (by simpa using ho)
  | @unopened q key e' hq =>
    obtain rfl : e' = e := by simpa using ho
    exact hs rfl
  | @fails q key content e' hq hfail =>
    obtain rfl : e' = e := by simpa using ho
    exact Workshop.cause_ne_of_make hfail
  | _ => simp at ho

/-- A view is made, stored and taken out, and each time it is counted. -/
theorem Move.size_add (h : c.Move t who q s o)
    (habsent : ∀ v key, s = .storing v → q.key? = some key → c.entry? key = none) :
    (o.cache c).size + (o.cache c).counts.evictions + unstored q o.stage + c.counts.compilations =
      c.size + c.counts.evictions + unstored q s + (o.cache c).counts.compilations := by
  cases h with
  | evict hq he | forget hq he | evictLate hq he =>
    have hsize := size_evict _ _ _ he
    simp [unstored, counts_evict _ _ _ he]
    omega
  | stores hq =>
    simp [unstored, size_store _ _ _ (habsent _ _ rfl hq)]
    omega
  | makes =>
    simp [unstored]
    omega
  | clears =>
    simp [unstored]
    omega
  | hit | leaves => simp
  | _ => simp [unstored]

/-- A lookup that has begun is decided once. -/
theorem Move.hits_add (h : c.Move t who q s o) (hs : s ≠ .start) :
    (o.cache c).counts.hits + (o.cache c).counts.misses + undecided q o.stage =
      c.counts.hits + c.counts.misses + undecided q s := by
  cases h with
  | hitLate hq he | miss hq he =>
    simp [undecided, Stage.undecided, hq]
    omega
  | leaves => simp
  | take | opens | unopened | fails | makes | stores | renders =>
    simp [undecided, Stage.undecided]
  | rebuilt hq | rebuild hq | absent hq =>
    simp [undecided, lookupKey?_of_invalidationKey? hq]
  | evictLate hq he =>
    simp [undecided, lookupKey?_of_invalidationKey? hq, counts_evict _ _ _ he]
  | _ => exact absurd rfl hs

/-- A lookup that begins finds a view, or asks for the slot, or knows no source. -/
theorem Move.hits_add_of_begins {key : String} (h : c.Move t who q .start o)
    (hq : q.lookupKey? = some key) :
    (∀ a c', o = .finished a c' → ∃ id, a = .view id) ∧
        (o.cache c).counts.hits + (o.cache c).counts.misses + undecided q o.stage =
          c.counts.hits + c.counts.misses + 1 ∨
      o = .finished (.error ⟨key, .unknownSource⟩) c := by
  cases h with
  | @hit q _ id hq' he =>
    refine .inl ⟨fun a c' ho => ⟨id, ?_⟩, ?_⟩
    · cases q <;> simp_all [Request.settle]
    · simp
      omega
  | unknown hq' =>
    obtain rfl := Option.some.inj (hq.symm.trans hq')
    exact .inr rfl
  | ask => exact .inl ⟨fun a c' ho => (by cases ho), by simp [undecided, hq, Stage.undecided]⟩
  | evict hq' | forget hq' | ignore hq' =>
    rw [invalidationKey?_of_lookupKey? hq] at hq'
    cases hq'
  | gets | clears => simp [lookupKey?] at hq

/-- Whatever is no lookup neither hits nor misses. -/
theorem Move.hits_eq (h : c.Move t who q s o) (hq : q.lookupKey? = none) :
    (o.cache c).counts.hits = c.counts.hits ∧ (o.cache c).counts.misses = c.counts.misses := by
  cases h with
  | evict hq' he | forget hq' he | evictLate hq' he => simp [counts_evict _ _ _ he]
  | hit hq' | hitLate hq' | miss hq' => simp [hq] at hq'
  | _ => simp

/-- A move takes the entry out that an invalidation is about. -/
def TakesOut (c c' : Cache) (q : Request) : Prop :=
  ∃ key, q.invalidationKey? = some key ∧ c.entry? key ≠ none ∧ c'.entry? key = none

/-- An invalidation that has taken an entry out finds another one, now that it has the slot. -/
def FindsRebuilt (c : Cache) (q : Request) (s : Stage) : Prop :=
  ∃ key, q.invalidationKey? = some key ∧ s = .holding true ∧ c.entry? key ≠ none

lemma not_takesOut {c' : Cache} (h : ∀ key, c.entry? key ≠ none → c'.entry? key ≠ none) :
    ¬ TakesOut c c' q := by
  rintro ⟨key, -, hbefore, hafter⟩
  exact h key hbefore hafter

lemma not_findsRebuilt (hs : s ≠ .holding true) : ¬ c.FindsRebuilt q s := by
  rintro ⟨key, -, rfl, -⟩
  exact hs rfl

/-- A call takes the entry out before it asks for the slot, or once it has it. A compile is due
then. -/
theorem Move.takesOut (h : c.Move t who q s o)
    (hknown : ∀ key id, c.entry? key = some id → c.registry.contains key)
    (htakes : TakesOut c (o.cache c) q) :
    (s = .start ∧ o.stage = .waiting true ∨ s = .holding false ∧ o.stage = .opening) ∧
      (o.cache c).counts = { c.counts with evictions := c.counts.evictions + 1 } ∧
      unmade q o.stage = unmade q s + 1 := by
  cases h with
  | evict hq he =>
    simp [counts_evict _ _ _ he, unmade_of_invalidationKey? hq]
  | forget hq he hr => exact absurd (hknown _ _ he) hr
  | evictLate hq he =>
    have hnone := (unmade_of_invalidationKey? hq false).2
    simp [counts_evict _ _ _ he, hnone]
  | stores hq =>
    refine absurd htakes (not_takesOut fun key he => ?_)
    rw [Outcome.cache_going, entry?_store]
    split
    · simp
    · exact he
  | clears => simp [TakesOut, invalidationKey?] at htakes
  | _ => exact absurd htakes (not_takesOut (by simp))

/-- A call that waits for the slot has just begun, and knows whether it has taken the entry out. -/
theorem Move.stage_eq_waiting {evicted : Bool} (h : c.Move t who q s o)
    (ho : o.stage = .waiting evicted) :
    s = .start ∧ (TakesOut c (o.cache c) q ↔ evicted) := by
  cases h with
  | @hit q _ id =>
    have hwants := wants_stage_settle q (.view id) c.hit
    rw [ho] at hwants
    cases hwants
  | @leaves q key a =>
    have hwants := wants_stage_settle q a (c.freeSlot key)
    rw [ho] at hwants
    cases hwants
  | ask =>
    obtain rfl : false = evicted := by simpa using ho
    simpa using not_takesOut (by simp)
  | evict hq he =>
    obtain rfl : true = evicted := by simpa using ho
    simpa using ⟨_, hq, by simp [he], by simp [entry?_evict]⟩
  | _ => simp at ho

theorem Move.stage_eq_holding {evicted : Bool} (h : c.Move t who q s o)
    (ho : o.stage = .holding evicted) :
    s = .waiting evicted ∧ ¬ TakesOut c (o.cache c) q := by
  cases h with
  | hit | leaves => exact absurd ho (stage_settle_ne rfl)
  | take => exact ⟨by simpa using ho, not_takesOut (by simp)⟩
  | _ => simp at ho

/-- A call that finds an entry rebuilt has the slot, and leaves it at that. No compile is due any
more. -/
theorem Move.findsRebuilt (h : c.Move t who q s o) (hfinds : c.FindsRebuilt q s) :
    o.cache c = c ∧ unmade q s = 1 ∧ unmade q o.stage = 0 := by
  obtain ⟨key, hq, rfl, he⟩ := hfinds
  cases h with
  | rebuilt => simp [unmade_of_invalidationKey? hq]
  | hitLate hq' | miss hq' => simp [invalidationKey?_of_lookupKey? hq'] at hq
  | rebuild hq' he' =>
    obtain rfl := Option.some.inj (hq.symm.trans hq')
    exact absurd he' he

/-- Otherwise a compile is due after a miss alone, and it is due until it has been counted. -/
theorem Move.compiles_add (h : c.Move t who q s o) (htakes : ¬ TakesOut c (o.cache c) q)
    (hfinds : ¬ c.FindsRebuilt q s) :
    (o.cache c).counts.compilations + (o.cache c).counts.failures + c.counts.misses +
        unmade q o.stage =
      c.counts.compilations + c.counts.failures + (o.cache c).counts.misses + unmade q s := by
  cases h with
  | evict hq he | forget hq he | evictLate hq he =>
    exact absurd ⟨_, hq, by simp [he], by simp [entry?_evict]⟩ htakes
  | rebuilt hq he => exact absurd ⟨_, hq, rfl, by simp [he]⟩ hfinds
  | rebuild hq =>
    have hdue := (unmade_of_invalidationKey? hq true).2
    simp [hdue]
  | hitLate hq => simp [unmade_of_lookupKey? hq]
  | miss hq =>
    have hnone := fun evicted => (unmade_of_lookupKey? hq evicted).2
    simp [hnone]
    omega
  | absent hq => simp [unmade_of_invalidationKey? hq]
  | take => simp [unmade_waiting_eq_holding]
  | ask hq => cases q <;> simp [unmade]
  | hit | leaves => simp
  | unopened | fails | makes =>
    simp [unmade]
    omega
  | unknown | ignore | gets | clears | renders | opens | stores => simp [unmade]

end Cache

namespace Run

variable {r : Run} {who : Caller} {q : Request} {s : Stage} {b t : ℕ} {e : ViewError}

lemma Steps.absent (h : r.Steps who q b t s) (v : View) (key : String) (hs : s = .storing v)
    (hq : q.key? = some key) : (r.state t).cache.entry? key = none :=
  (r.coherent t).absent who q s key h.1.call? (by rw [hs]; rfl) hq

lemma counts_zero (r : Run) : (r.state 0).cache.size = 0 ∧ (r.state 0).cache.counts = {} := by
  obtain ⟨files, registry, workshop, h⟩ := r.fresh
  rw [h]
  exact ⟨rfl, rfl⟩

lemma balances_size (r : Run) : r.Balances
    (fun c => c.size + c.counts.evictions - c.counts.compilations) unstored
    fun _ _ _ _ => False := by
  intro who q b t s h
  have hsize := h.move.size_add h.absent
  rw [← h.moves.cache] at hsize
  simp only [and_false, if_false]
  omega

/-- Each compilation is an entry, or was one, or its view is on the way to be stored. -/
theorem size_balance (r : Run) (t : ℕ) :
    (r.state t).cache.size + (r.state t).cache.counts.evictions + (r.state t).load unstored =
      (r.state t).cache.counts.compilations := by
  have hlocal : r.Local fun _ _ _ _ => False := fun _ _ _ _ _ => Iff.rfl
  have hbalance := balance hlocal unstored_start (by simp [counts_zero r]) r.balances_size t
  simp only [tally, and_false, exists_false, Finset.filter_false, Finset.card_empty] at hbalance
  omega

/-! Lookups. -/

/-- A call is told in turn `u` that there is no source. -/
def FindsNoSource (r : Run) (who : Caller) (q : Request) (b u : ℕ) : Prop :=
  ∃ key, r.Returns who q b u (.error ⟨key, .unknownSource⟩)

/-- A call is a lookup that has not been told before time `t` that there is no source. -/
def LooksUp (r : Run) (t : ℕ) (who : Caller) (q : Request) (b : ℕ) : Prop :=
  q.lookupKey?.isSome ∧ ¬ ∃ u < t, r.FindsNoSource who q b u

lemma FindsNoSource.steps (h : r.FindsNoSource who q b t) : ∃ s, r.Steps who q b t s := by
  obtain ⟨key, s, c, hsteps, -⟩ := h
  exact ⟨s, hsteps⟩

lemma local_looksUp (r : Run) : r.Local r.LooksUp := by
  intro t who q b hno
  have hnot : ¬ r.FindsNoSource who q b t := fun h => h.steps.elim hno
  rw [LooksUp, LooksUp, Nat.exists_lt_succ_right, or_iff_left hnot]

/-- A call that has asked for the slot is not told any more that there is no source. -/
theorem Reaches.cause_ne (h : r.Reaches who q b t s)
    (hs : s = .making (.error e) ∨ s = .leaving (.error e)) : e.cause ≠ .unknownSource := by
  induction h with
  | begins => simp at hs
  | waits _ _ ih => exact ih hs
  | @goes t s s' c h ha ho ih =>
    have hsteps : r.Steps who q b t s := ⟨h, ha⟩
    have hstage : (r.outcomeAt who q s t).stage = s' := by rw [ho]; rfl
    refine hsteps.move.cause_ne (fun key hwants hq => ?_) (fun hs => ih (.inl hs)) (by rwa [hstage])
    exact (r.coherent t).known who q s key h.call? hwants hq

/-- Only a lookup that has just begun is told that there is no source. -/
lemma Steps.not_unknown {key : String} {a : Answer} {c : Cache} (h : r.Steps who q b t s)
    (hs : s ≠ .start) (hq : q.lookupKey?.isSome) (ho : r.outcomeAt who q s t = .finished a c) :
    a ≠ .error ⟨key, .unknownSource⟩ := by
  rintro rfl
  have hmove := h.move
  rw [ho] at hmove
  generalize hout : Outcome.finished _ c = o at hmove
  cases hmove with
  | @leaves q key' a hkey =>
    obtain rfl := answer_eq_of_settle hout.symm
    exact h.1.cause_ne (.inr rfl) rfl
  | @renders path model id =>
    simp only [Outcome.finished.injEq, Cache.renderFound] at hout
    obtain ⟨hout, -⟩ := hout
    split at hout
    · cases hout
    · split at hout <;> simp at hout
  | _ => simp_all

/-- A lookup that is under way has not been told so. -/
lemma Reaches.looksUp (h : r.Reaches who q b t s) (hq : q.lookupKey?.isSome) :
    r.LooksUp t who q b := by
  refine ⟨hq, ?_⟩
  rintro ⟨e, hlt, key, hreturns⟩
  exact Nat.not_le_of_lt hlt (h.le_of_returns hreturns)

lemma Steps.looksUp_succ_iff (h : r.Steps who q b t s) (hq : q.lookupKey?.isSome) :
    r.LooksUp (t + 1) who q b ↔
      ∀ key c, r.outcomeAt who q s t ≠ .finished (.error ⟨key, .unknownSource⟩) c := by
  have hbefore := (h.1.looksUp hq).2
  have hnow : r.FindsNoSource who q b t ↔
      ∃ key c, r.outcomeAt who q s t = .finished (.error ⟨key, .unknownSource⟩) c := by
    constructor
    · rintro ⟨key, s', c, hsteps, ho⟩
      exact ⟨key, c, h.stage_unique hsteps ▸ ho⟩
    · rintro ⟨key, c, ho⟩
      exact ⟨key, s, c, h, ho⟩
  rw [LooksUp, Nat.exists_lt_succ_right, or_iff_right hbefore, hnow]
  simp [hq]

lemma balances_lookups (r : Run) :
    r.Balances (fun c => c.counts.hits + c.counts.misses) undecided r.LooksUp := by
  intro who q b t s h
  rw [h.moves.cache]
  cases hq : q.lookupKey? with
  | none =>
    have hno : ∀ t, ¬ r.LooksUp t who q b := fun t hlooks => by simp [LooksUp, hq] at hlooks
    obtain ⟨hhits, hmisses⟩ := h.move.hits_eq hq
    simp [hno, undecided, hq, hhits, hmisses]
  | some key =>
    have hsome : q.lookupKey?.isSome := by simp [hq]
    have hnow := h.looksUp_succ_iff hsome
    by_cases hs : s = .start
    · subst hs
      obtain rfl := h.1.eq_of_start
      rcases h.move.hits_add_of_begins hq with ⟨hview, hadd⟩ | hunknown
      · have hlooks : r.LooksUp (b + 1) who q b := hnow.mpr fun key c ho => by
          obtain ⟨id, hid⟩ := hview _ _ ho
          cases hid
        simp [hlooks]
        omega
      · have hlooks : ¬ r.LooksUp (b + 1) who q b := fun h => hnow.mp h _ _ hunknown
        simp [hlooks, hunknown]
    · have hadd := h.move.hits_add hs
      have hlooks : r.LooksUp (t + 1) who q b := hnow.mpr fun key c ho =>
        h.not_unknown hs hsome ho rfl
      simp [hlooks, h.1.looksUp hsome, h.1.lt_of_ne_start hs]
      omega

/-- Each lookup that knows its source is a hit or a miss, or it is not decided yet. -/
theorem lookups_balance (r : Run) (t : ℕ) :
    (r.state t).cache.counts.hits + (r.state t).cache.counts.misses + (r.state t).load undecided =
      r.tally (r.LooksUp t) t := by
  have hbalance := balance r.local_looksUp undecided_start (by simp [counts_zero r])
    r.balances_lookups t
  omega

/-! Invalidations. -/

/-- In turn `u` a call takes out the entry that it invalidates. -/
def TakesOut (r : Run) (who : Caller) (q : Request) (b u : ℕ) : Prop :=
  (∃ s, r.Steps who q b u s) ∧ (r.state u).cache.TakesOut (r.state (u + 1)).cache q

/-- In turn `u` a call finds that the entry that it has taken out has been rebuilt. -/
def FindsRebuilt (r : Run) (who : Caller) (q : Request) (b u : ℕ) : Prop :=
  ∃ s, r.Steps who q b u s ∧ (r.state u).cache.FindsRebuilt q s

/-- A call has taken out an entry before time `t`, and has not found it rebuilt. -/
def Evicts (r : Run) (t : ℕ) (who : Caller) (q : Request) (b : ℕ) : Prop :=
  (∃ u < t, r.TakesOut who q b u) ∧ ¬ ∃ u < t, r.FindsRebuilt who q b u

lemma local_evicts (r : Run) : r.Local r.Evicts := by
  intro t who q b hno
  have htakes : ¬ r.TakesOut who q b t := fun h => h.1.elim hno
  have hfinds : ¬ r.FindsRebuilt who q b t := fun ⟨s, hsteps, _⟩ => hno s hsteps
  rw [Evicts, Evicts, Nat.exists_lt_succ_right, Nat.exists_lt_succ_right, or_iff_left htakes,
    or_iff_left hfinds]

lemma Steps.takesOut_iff (h : r.Steps who q b t s) : r.TakesOut who q b t ↔
    (r.state t).cache.TakesOut ((r.outcomeAt who q s t).cache (r.state t).cache) q := by
  rw [TakesOut, h.moves.cache, and_iff_right ⟨s, h⟩]

lemma Steps.findsRebuilt_iff (h : r.Steps who q b t s) :
    r.FindsRebuilt who q b t ↔ (r.state t).cache.FindsRebuilt q s := by
  constructor
  · rintro ⟨s', hsteps, hfinds⟩
    exact h.stage_unique hsteps ▸ hfinds
  · exact fun hfinds => ⟨s, h, hfinds⟩

/-- Until it has decided what to do, a call knows whether it has taken an entry out. -/
lemma Reaches.takenOut_iff {evicted : Bool} (h : r.Reaches who q b t s)
    (hs : s = .waiting evicted ∨ s = .holding evicted) :
    ((∃ u < t, r.TakesOut who q b u) ↔ evicted) ∧ ¬ ∃ u < t, r.FindsRebuilt who q b u := by
  induction h with
  | begins => simp at hs
  | @waits t s h hne ih =>
    have htakes : ¬ r.TakesOut who q b t := fun ⟨⟨_, hsteps⟩, _⟩ => hne hsteps.2
    have hfinds : ¬ r.FindsRebuilt who q b t := fun ⟨_, hsteps, _⟩ => hne hsteps.2
    rw [Nat.exists_lt_succ_right, Nat.exists_lt_succ_right, or_iff_left htakes, or_iff_left hfinds]
    exact ih hs
  | @goes t s s' c h ha ho ih =>
    have hsteps : r.Steps who q b t s := ⟨h, ha⟩
    have hstage : (r.outcomeAt who q s t).stage = s' := by rw [ho]; rfl
    rw [Nat.exists_lt_succ_right, Nat.exists_lt_succ_right, hsteps.takesOut_iff,
      hsteps.findsRebuilt_iff]
    rcases hs with rfl | rfl
    · obtain ⟨rfl, htakes⟩ := hsteps.move.stage_eq_waiting hstage
      obtain rfl := h.eq_of_start
      have hnone : ∀ E : ℕ → Prop, (∀ u, E u → ∃ s, r.Steps who q b u s) → ¬ ∃ u < b, E u := by
        rintro E hE ⟨u, hlt, hu⟩
        obtain ⟨s, hs⟩ := hE u hu
        exact Nat.not_le_of_lt hlt hs.1.le
      rw [or_iff_right (hnone _ fun u hu => hu.1), htakes,
        or_iff_right (hnone _ fun u ⟨s, hs, _⟩ => ⟨s, hs⟩)]
      exact ⟨Iff.rfl, Cache.not_findsRebuilt (by simp)⟩
    · obtain ⟨rfl, htakes⟩ := hsteps.move.stage_eq_holding hstage
      rw [or_iff_left htakes, or_iff_left (Cache.not_findsRebuilt (by simp))]
      exact ih (.inl rfl)

lemma Evicts.lt (h : r.Evicts t who q b) : b < t := by
  obtain ⟨⟨u, hlt, ⟨s, hsteps⟩, -⟩, -⟩ := h
  exact Nat.lt_of_le_of_lt hsteps.1.le hlt

lemma Steps.evicts_of_takesOut (h : r.Steps who q b t s) (htakes : r.TakesOut who q b t) :
    ¬ r.Evicts t who q b ∧ r.Evicts (t + 1) who q b := by
  obtain ⟨hstages, -⟩ := h.move.takesOut (r.coherent t).sound.known (h.takesOut_iff.mp htakes)
  have hnow : ¬ r.FindsRebuilt who q b t := by
    rw [h.findsRebuilt_iff]
    exact Cache.not_findsRebuilt (by rcases hstages with ⟨rfl, -⟩ | ⟨rfl, -⟩ <;> simp)
  have hbefore : ¬ r.Evicts t who q b ∧ ¬ ∃ u < t, r.FindsRebuilt who q b u := by
    rcases hstages with ⟨rfl, -⟩ | ⟨rfl, -⟩
    · obtain rfl := h.1.eq_of_start
      refine ⟨fun hevicts => Nat.lt_irrefl b hevicts.lt, ?_⟩
      rintro ⟨u, hlt, s, hsteps, -⟩
      exact Nat.not_le_of_lt hlt hsteps.1.le
    · obtain ⟨htaken, hfound⟩ := h.1.takenOut_iff (.inr rfl)
      exact ⟨fun hevicts => by simpa using htaken.mp hevicts.1, hfound⟩
  refine ⟨hbefore.1, ⟨t, Nat.lt_succ_self t, htakes⟩, ?_⟩
  rw [Nat.exists_lt_succ_right, or_iff_left hnow]
  exact hbefore.2

lemma Steps.evicts_of_findsRebuilt (h : r.Steps who q b t s) (hfinds : r.FindsRebuilt who q b t) :
    r.Evicts t who q b ∧ ¬ r.Evicts (t + 1) who q b := by
  obtain ⟨key, -, rfl, -⟩ := h.findsRebuilt_iff.mp hfinds
  obtain ⟨htaken, hfound⟩ := h.1.takenOut_iff (.inr rfl)
  exact ⟨⟨htaken.mpr rfl, hfound⟩, fun hevicts => hevicts.2 ⟨t, Nat.lt_succ_self t, hfinds⟩⟩

lemma balances_compiles (r : Run) : r.Balances
    (fun c => c.counts.compilations + c.counts.failures - c.counts.misses) unmade r.Evicts := by
  intro who q b t s h
  rw [h.moves.cache]
  by_cases htakes : r.TakesOut who q b t
  · obtain ⟨hbefore, hafter⟩ := h.evicts_of_takesOut htakes
    obtain ⟨-, hcounts, hunmade⟩ :=
      h.move.takesOut (r.coherent t).sound.known (h.takesOut_iff.mp htakes)
    simp [hbefore, hafter, hcounts, hunmade]
    omega
  by_cases hfinds : r.FindsRebuilt who q b t
  · obtain ⟨hbefore, hafter⟩ := h.evicts_of_findsRebuilt hfinds
    obtain ⟨hcache, hdue, hdone⟩ := h.move.findsRebuilt (h.findsRebuilt_iff.mp hfinds)
    simp [hbefore, hbefore.lt, hafter, hcache, hdue, hdone]
  · have hsame : r.Evicts (t + 1) who q b ↔ r.Evicts t who q b := by
      rw [Evicts, Evicts, Nat.exists_lt_succ_right, Nat.exists_lt_succ_right,
        or_iff_left htakes, or_iff_left hfinds]
    have hadd := h.move.compiles_add (mt h.takesOut_iff.mpr htakes)
      (mt h.findsRebuilt_iff.mpr hfinds)
    by_cases hevicts : r.Evicts t who q b
    · simp [hevicts, hevicts.lt, hsame.mpr hevicts]
      omega
    · simp [hevicts, mt hsame.mp hevicts]
      omega

/-- Each compile comes from a miss, or from an invalidation that has taken an entry out and has not
found it rebuilt. -/
theorem compiles_balance (r : Run) (t : ℕ) :
    (r.state t).cache.counts.compilations + (r.state t).cache.counts.failures +
        (r.state t).load unmade =
      (r.state t).cache.counts.misses + r.tally (r.Evicts t) t := by
  have hbalance := balance r.local_evicts unmade_start (by simp [counts_zero r])
    r.balances_compiles t
  omega

end Run

end CompiledViews
