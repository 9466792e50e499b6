import CompiledViews.Proofs.Cache.Operations

/-!
The moves of a call. Each step that a call can take is one of a few, and what a move does to the
slot of its key, to the entries and to the views is said here once for all of them.
-/

namespace CompiledViews

namespace Request

/-- The key of a request that looks a view up. -/
def lookupKey? : Request → Option String
  | .lookup path | .render path _ => some (Path.normalizeLogical path)
  | .invalidate _ | .get _ | .clear => none

/-- The key of a request that invalidates. -/
def invalidationKey? : Request → Option String
  | .invalidate path => some (Path.normalizeLogical path)
  | .lookup _ | .render _ _ | .get _ | .clear => none

/-- The key whose slot a request may need. -/
def key? : Request → Option String
  | .lookup path | .render path _ | .invalidate path => some (Path.normalizeLogical path)
  | .get _ | .clear => none

theorem key?_of_lookupKey? {q : Request} {key : String} (h : q.lookupKey? = some key) :
    q.key? = some key := by cases q <;> simp_all [lookupKey?, key?]

theorem key?_of_invalidationKey? {q : Request} {key : String} (h : q.invalidationKey? = some key) :
    q.key? = some key := by cases q <;> simp_all [invalidationKey?, key?]

/-- A view that was looked up to be rendered is rendered next; any other answer is the last step. -/
def settle : Request → Answer → Cache → Outcome
  | .render _ _, .view id, c => .going (.rendering id) c
  | _, a, c => .finished a c

end Request

namespace Stage

/-- Whether a call has the slot of its key. -/
def holds : Stage → Bool
  | .holding _ | .opening | .making _ | .storing _ | .leaving _ => true
  | .start | .waiting _ | .rendering _ => false

/-- Whether a call is about to store a view. -/
def builds : Stage → Bool
  | .opening | .making _ | .storing _ => true
  | .start | .waiting _ | .holding _ | .leaving _ | .rendering _ => false

/-- Whether a call waits for the slot of its key or has it. -/
def wants : Stage → Bool
  | .waiting _ => true
  | s => s.holds

@[simp] theorem holds_start : start.holds = false := rfl
@[simp] theorem holds_leaving (a : Answer) : (leaving a).holds = true := rfl

theorem holds_of_builds {s : Stage} (h : s.builds) : s.holds := by
  cases s <;> simp_all [builds, holds]

theorem wants_of_holds {s : Stage} (h : s.holds) : s.wants := by
  cases s <;> simp_all [wants, holds]

end Stage

namespace Outcome

/-- The stage that a call is at next. -/
def stage : Outcome → Stage
  | .going s _ => s
  | .blocked | .finished _ _ => .start

/-- The cache that a step leaves behind. -/
def cache (c : Cache) : Outcome → Cache
  | .blocked => c
  | .going _ c' | .finished _ c' => c'

@[simp] theorem stage_blocked : blocked.stage = .start := rfl
@[simp] theorem stage_going (s : Stage) (c : Cache) : (going s c).stage = s := rfl
@[simp] theorem stage_finished (a : Answer) (c : Cache) : (finished a c).stage = .start := rfl
@[simp] theorem cache_going (c c' : Cache) (s : Stage) : (going s c').cache c = c' := rfl
@[simp] theorem cache_finished (c c' : Cache) (a : Answer) : (finished a c').cache c = c' := rfl

@[simp] theorem cache_settle (q : Request) (a : Answer) (c c' : Cache) :
    (q.settle a c').cache c = c' := by
  unfold Request.settle; split <;> rfl

theorem stage_settle (q : Request) (a : Answer) (c : Cache) :
    (q.settle a c).stage = .start ∨ ∃ id, (q.settle a c).stage = .rendering id := by
  unfold Request.settle; split <;> simp [stage]

end Outcome

namespace Cache

attribute [simp] hit miss

/-- A compile has failed. -/
@[simp] def failed (c : Cache) : Cache := c.count fun n => { n with failures := n.failures + 1 }

/-- A compile has yielded a view. -/
@[simp] def compiled (c : Cache) : Cache :=
  c.count fun n => { n with compilations := n.compilations + 1 }

/-- What a call for a request can do at a stage, and what comes of it. -/
inductive Move (c : Cache) (t : FileTree) (who : Caller) : Request → Stage → Outcome → Prop
  | hit {q key id} : q.lookupKey? = some key → c.entry? key = some id →
      Move c t who q .start (q.settle (.view id) c.hit)
  | unknown {q key} : q.lookupKey? = some key → c.entry? key = none → ¬ c.registry.contains key →
      Move c t who q .start (.finished (.error ⟨key, .unknownSource⟩) c)
  | ask {q key} : q.key? = some key → c.entry? key = none → c.registry.contains key →
      Move c t who q .start (.going (.waiting false) (c.askSlot key))
  | evict {q key id} : q.invalidationKey? = some key → c.entry? key = some id →
      c.registry.contains key →
      Move c t who q .start (.going (.waiting true) ((c.evict key).2.askSlot key))
  | forget {q key id} : q.invalidationKey? = some key → c.entry? key = some id →
      ¬ c.registry.contains key →
      Move c t who q .start (.finished (.error ⟨key, .unknownSource⟩) (c.evict key).2)
  | ignore {q key} : q.invalidationKey? = some key → c.entry? key = none →
      ¬ c.registry.contains key → Move c t who q .start (.finished .nothing c)
  | take {q key evicted} : q.key? = some key → c.holder? key = none →
      Move c t who q (.waiting evicted) (.going (.holding evicted) (c.takeSlot key who))
  | hitLate {q key id evicted} : q.lookupKey? = some key → c.entry? key = some id →
      Move c t who q (.holding evicted) (.going (.leaving (.view id)) c.hit)
  | miss {q key evicted} : q.lookupKey? = some key → c.entry? key = none →
      Move c t who q (.holding evicted) (.going .opening c.miss)
  | rebuilt {q key id} : q.invalidationKey? = some key → c.entry? key = some id →
      Move c t who q (.holding true) (.going (.leaving (.view id)) c)
  | rebuild {q key} : q.invalidationKey? = some key → c.entry? key = none →
      Move c t who q (.holding true) (.going .opening c)
  | evictLate {q key id} : q.invalidationKey? = some key → c.entry? key = some id →
      Move c t who q (.holding false) (.going .opening (c.evict key).2)
  | absent {q key} : q.invalidationKey? = some key → c.entry? key = none →
      Move c t who q (.holding false) (.going (.leaving .nothing) c)
  | opens {q key} : q.key? = some key →
      Move c t who q .opening (.going (.making (c.openSource t key)) c)
  | unopened {q key e} : q.key? = some key →
      Move c t who q (.making (.error e)) (.going (.leaving (.error e)) c.failed)
  | fails {q key content e} : q.key? = some key → (c.make key content).1 = .error e →
      Move c t who q (.making (.ok content))
        (.going (.leaving (.error e)) (c.make key content).2.failed)
  | makes {q key content v} : q.key? = some key → (c.make key content).1 = .ok v →
      Move c t who q (.making (.ok content)) (.going (.storing v) (c.make key content).2.compiled)
  | stores {q key v} : q.key? = some key →
      Move c t who q (.storing v) (.going (.leaving (.view (c.store key v).1)) (c.store key v).2)
  | leaves {q key a} : q.key? = some key →
      Move c t who q (.leaving a) (q.settle a (c.freeSlot key))
  | renders {path model id} : Move c t who (.render path model) (.rendering id)
      (.finished (c.renderFound id model) c)
  | gets {path} : Move c t who (.get path) .start
      (.finished (((c.entry? (Path.normalizeLogical path)).map Answer.view).getD .nothing) c)
  | clears : Move c t who .clear .start (.finished (.cleared c.clear.1) c.clear.2)

variable {c : Cache} {t : FileTree} {who : Caller}

/-- The last answer of a call is settled according to its request. -/
def settled (q : Request) : Outcome → Outcome
  | .finished a c => q.settle a c
  | o => o

/-- The moves at a slot that lookups and invalidations have in common; `again` is what they do
differently. -/
lemma Move.of_workStep {q : Request} {key : String} (again : Bool → Cache → Stage × Cache)
    {s : Stage} (hq : q.key? = some key)
    (hagain : ∀ evicted, c.Move t who q (.holding evicted)
      (.going (again evicted c).1 (again evicted c).2))
    (hb : c.workStep t who key again s ≠ .blocked) :
    c.Move t who q s (settled q (c.workStep t who key again s)) := by
  cases s with
  | start | rendering id => simp [workStep] at hb
  | waiting evicted =>
    cases hh : c.holder? key with
    | none => simpa [workStep, hh, settled] using Move.take hq hh
    | some w => simp [workStep, hh] at hb
  | holding evicted => exact hagain evicted
  | opening => exact .opens hq
  | making opened =>
    cases opened with
    | error e => exact .unopened hq
    | ok content =>
      simp only [workStep]
      split
      case h_1 e c' hm =>
        have h : c.Move t who q _ _ := .fails hq (congrArg Prod.fst hm)
        rwa [hm] at h
      case h_2 v c' hm =>
        have h : c.Move t who q _ _ := .makes hq (congrArg Prod.fst hm)
        rwa [hm] at h
  | storing v => exact .stores hq
  | leaving a => exact .leaves hq

/-- What a lookup does once it has the slot. -/
def lookAgain (key : String) (_ : Bool) (c : Cache) : Stage × Cache :=
  match c.entry? key with
  | some id => (.leaving (.view id), c.hit)
  | none => (.opening, c.miss)

lemma lookupStep_eq {key : String} {s : Stage} (h : s ≠ .start) :
    c.lookupStep t who key s = c.workStep t who key (lookAgain key) s := by
  cases s <;> first | rfl | exact absurd rfl h

/-- What an invalidation does once it has the slot. -/
def evictAgain (key : String) (evicted : Bool) (c : Cache) : Stage × Cache :=
  if evicted then
    match c.entry? key with
    | some id => (.leaving (.view id), c)
    | none => (.opening, c)
  else match c.evict key with
    | (some _, c) => (.opening, c)
    | (none, c) => (.leaving .nothing, c)

lemma invalidateStep_eq {key : String} {s : Stage} (h : s ≠ .start) :
    c.invalidateStep t who key s = c.workStep t who key (evictAgain key) s := by
  cases s <;> first | rfl | exact absurd rfl h

lemma Move.of_lookupStep {q : Request} {key : String} {s : Stage} (hq : q.lookupKey? = some key)
    (hb : c.lookupStep t who key s ≠ .blocked) :
    c.Move t who q s (settled q (c.lookupStep t who key s)) := by
  have hk := Request.key?_of_lookupKey? hq
  by_cases hs : s = .start
  · subst hs
    cases he : c.entry? key with
    | some id => simpa [lookupStep, he, settled] using Move.hit hq he
    | none =>
      by_cases hr : c.registry.contains key
      · simpa [lookupStep, he, approach, hr, settled] using Move.ask hk he hr
      · have hmove : c.Move t who q _ _ := .unknown hq he hr
        cases q <;> simpa [lookupStep, he, approach, hr, settled, Request.settle] using hmove
  · rw [lookupStep_eq hs] at hb ⊢
    refine of_workStep _ hk (fun evicted => ?_) hb
    cases he : c.entry? key with
    | some id => simpa [lookAgain, he] using Move.hitLate hq he
    | none => simpa [lookAgain, he] using Move.miss hq he

/-- An invalidation has nothing to settle. -/
lemma settled_of_invalidationKey? {q : Request} {key : String}
    (hq : q.invalidationKey? = some key) (o : Outcome) : settled q o = o := by
  cases o with
  | finished a c' => cases q <;> simp_all [Request.invalidationKey?, settled, Request.settle]
  | _ => rfl

lemma Move.of_invalidateStep {q : Request} {key : String} {s : Stage}
    (hq : q.invalidationKey? = some key) (hb : c.invalidateStep t who key s ≠ .blocked) :
    c.Move t who q s (c.invalidateStep t who key s) := by
  have hk := Request.key?_of_invalidationKey? hq
  by_cases hs : s = .start
  · subst hs
    cases he : c.entry? key with
    | some id =>
      obtain ⟨c', hc'⟩ : ∃ c', c.evict key = (some id, c') :=
        ⟨_, Prod.ext (c.evict_of_some key id he) rfl⟩
      have hsame : c'.registry = c.registry := by simpa [hc'] using c.registry_evict key
      by_cases hr : c.registry.contains key
      · simpa [invalidateStep, hc', approach, hsame, hr] using Move.evict hq he hr
      · simpa [invalidateStep, hc', approach, hsame, hr] using Move.forget hq he hr
    | none =>
      by_cases hr : c.registry.contains key
      · simpa [invalidateStep, c.evict_of_none key he, approach, hr] using Move.ask hk he hr
      · simpa [invalidateStep, c.evict_of_none key he, hr] using Move.ignore hq he hr
  · rw [invalidateStep_eq hs] at hb ⊢
    rw [← settled_of_invalidationKey? hq (c.workStep ..)]
    refine of_workStep _ hk (fun evicted => ?_) hb
    cases he : c.entry? key with
    | some id =>
      obtain ⟨c', hc'⟩ : ∃ c', c.evict key = (some id, c') :=
        ⟨_, Prod.ext (c.evict_of_some key id he) rfl⟩
      cases evicted with
      | true => simpa [evictAgain, he] using Move.rebuilt hq he
      | false => simpa [evictAgain, hc'] using Move.evictLate hq he
    | none =>
      cases evicted with
      | true => simpa [evictAgain, he] using Move.rebuild hq he
      | false => simpa [evictAgain, c.evict_of_none key he] using Move.absent hq he

lemma settled_render (path : String) (model : Json) (o : Outcome) :
    settled (.render path model) o =
      match o with
      | .finished (.view id) c => .going (.rendering id) c
      | o => o := by
  cases o with
  | finished a c => cases a <;> rfl
  | _ => rfl

/-- Every step of a call is one of the moves. -/
theorem Move.of_step {q : Request} {s : Stage} (hb : c.step t who q s ≠ .blocked) :
    c.Move t who q s (c.step t who q s) := by
  cases q with
  | lookup path =>
    have hmove : c.Move t who (.lookup path) s _ := Move.of_lookupStep rfl hb
    cases ho : c.lookupStep t who (Path.normalizeLogical path) s <;>
      simpa [step, ho, settled, Request.settle] using hmove
  | invalidate path => exact Move.of_invalidateStep rfl hb
  | render path model =>
    by_cases hs : ∃ id, s = .rendering id
    · obtain ⟨id, rfl⟩ := hs
      exact .renders
    · have hstep : c.step t who (.render path model) s =
          settled (.render path model) (c.lookupStep t who (Path.normalizeLogical path) s) := by
        rw [settled_render]
        cases s <;> first | rfl | exact absurd ⟨_, rfl⟩ hs
      rw [hstep] at hb ⊢
      refine Move.of_lookupStep rfl fun h => hb ?_
      simp [h, settled]
  | get path => cases s <;> first | exact .gets | exact absurd rfl hb
  | clear => cases s <;> first | exact .clears | exact absurd rfl hb

end Cache

end CompiledViews
