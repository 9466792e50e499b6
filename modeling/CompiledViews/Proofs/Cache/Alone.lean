import CompiledViews.Proofs.Cache.Effect

/-!
Calls that have the cache for themselves. Such a call is never blocked, and comes to its answer
within the steps that it is given.
-/

namespace CompiledViews

/-- The last answer to a request: a view that was looked up to be rendered is rendered. -/
def Request.answer : Request → Answer → Cache → Answer
  | .render _ model, .view id, c => c.renderFound id model
  | _, a, _ => a

/-- What a call does once it has the slot of its key. -/
def Request.again : Request → String → Bool → Cache → Stage × Cache
  | .invalidate _ => Cache.evictAgain
  | _ => Cache.lookAgain

namespace Cache

/-- Within `n` steps a call goes from a stage to its answer. -/
inductive Completes (t : FileTree) (q : Request) : Stage → Cache → ℕ → Answer → Cache → Prop
  | finishes {s c n a c'} : c.step t 0 q s = .finished a c' → Completes t q s c (n + 1) a c'
  | goes {s s' c c' n a c''} : c.step t 0 q s = .going s' c' → Completes t q s' c' n a c'' →
      Completes t q s c (n + 1) a c''

variable {t : FileTree} {q : Request} {s : Stage} {c c' : Cache} {key : String} {a : Answer}
  {who : Caller} {n : ℕ}

/-- A client whose call completes is at its next request then. -/
theorem Completes.runAlone (h : Completes t q s c n a c') (rest : List Request)
    (answers : List Answer) : ∃ k ≤ n, ∀ m,
      Cache.runAlone t (m + k) ⟨q :: rest, s, answers⟩ c =
        Cache.runAlone t m ⟨rest, .start, answers ++ [a]⟩ c' := by
  induction h with
  | finishes hstep =>
    refine ⟨1, by omega, fun m => ?_⟩
    simp [Cache.runAlone, Client.advance, hstep]
  | goes hstep _ ih =>
    obtain ⟨k, hk, hrun⟩ := ih
    refine ⟨k + 1, by omega, fun m => ?_⟩
    rw [← hrun m, ← Nat.add_assoc]
    simp [Cache.runAlone, Client.advance, hstep]

lemma Completes.mono {m : ℕ} (h : Completes t q s c n a c') (hle : n ≤ m) :
    Completes t q s c m a c' := by
  induction h generalizing m with
  | finishes hstep =>
    obtain ⟨m, rfl⟩ := Nat.exists_eq_add_of_le' hle
    exact .finishes hstep
  | @goes s s' c c' n a c'' hstep _ ih =>
    obtain ⟨m, rfl⟩ := Nat.exists_eq_add_of_le' (Nat.le_of_add_left_le hle)
    exact .goes hstep (ih (by omega))

lemma completes_of_settle (h : c.step t 0 q s = q.settle a c') :
    Completes t q s c 2 (q.answer a c') c' := by
  cases q with
  | render path model =>
    cases a with
    | view id => exact .goes h (.finishes rfl)
    | _ => exact .finishes h
  | _ => exact .finishes h

/-- A call that waits for the slot or has it takes the steps of any call at a slot. -/
lemma step_of_wants (hq : q.key? = some key) (hs : s.wants) :
    c.step t who q s = settled q (c.workStep t who key (q.again key) s) := by
  have hstart : s ≠ .start := by
    rintro rfl
    cases hs
  cases q with
  | lookup path =>
    obtain rfl := Option.some.inj hq
    have hsettled : ∀ o, settled (.lookup path) o = o := fun o => by cases o <;> rfl
    rw [hsettled, step, lookupStep_eq hstart]
    rfl
  | invalidate path =>
    obtain rfl := Option.some.inj hq
    rw [settled_of_invalidationKey? rfl, step, invalidateStep_eq hstart]
    rfl
  | render path model =>
    obtain rfl := Option.some.inj hq
    have hstep : c.step t who (.render path model) s =
        settled (.render path model) (c.lookupStep t who (Path.normalizeLogical path) s) := by
      rw [settled_render]
      cases s <;> first | rfl | cases hs
    rw [hstep, lookupStep_eq hstart]
    rfl
  | get path | clear => cases hq

/-! From the slot on. -/

lemma completes_leaving (hq : q.key? = some key) :
    Completes t q (.leaving a) c 2 (q.answer a (c.freeSlot key)) (c.freeSlot key) :=
  completes_of_settle (step_of_wants hq rfl)

lemma completes_holding {evicted : Bool} {d : Cache} (hq : q.key? = some key)
    (hagain : q.again key evicted c = (s, d)) (h : Completes t q s d n a c') :
    Completes t q (.holding evicted) c (n + 1) a c' := by
  have hstep : c.step t 0 q (.holding evicted) = settled q (c.workStep t 0 key _ _) :=
    step_of_wants hq rfl
  simp only [workStep, hagain] at hstep
  exact .goes hstep h

/-- A slot that is free is taken at once. -/
lemma completes_waiting {evicted : Bool} (hq : q.key? = some key) (hfree : c.holder? key = none)
    (h : Completes t q (.holding evicted) (c.takeSlot key 0) n a c') :
    Completes t q (.waiting evicted) c (n + 1) a c' :=
  .goes ((step_of_wants hq rfl).trans (by simp [workStep, hfree, settled])) h

/-- What comes of a compile, before the slot is given back. -/
def rebuild (c : Cache) (t : FileTree) (key : String) : Answer × Cache :=
  match c.openSource t key with
  | .error e => (.error e, c.failed)
  | .ok content =>
    match c.make key content with
    | (.error e, c) => (.error e, c.failed)
    | (.ok v, c) => (.view (c.compiled.store key v).1, (c.compiled.store key v).2)

lemma rebuild_of_unopened {e : ViewError} (h : c.openSource t key = .error e) :
    c.rebuild t key = (.error e, c.failed) := by
  simp only [rebuild, h]

lemma rebuild_of_failed {content : Content} {e : ViewError} (h : c.openSource t key = .ok content)
    (hmake : c.make key content = (.error e, c')) :
    c.rebuild t key = (.error e, c'.failed) := by
  simp only [rebuild, h, hmake]

lemma rebuild_of_made {content : Content} {v : View} (h : c.openSource t key = .ok content)
    (hmake : c.make key content = (.ok v, c')) :
    c.rebuild t key = (.view (c'.compiled.store key v).1, (c'.compiled.store key v).2) := by
  simp only [rebuild, h, hmake]

lemma holder?_rebuild (k : String) : (c.rebuild t key).2.holder? k = c.holder? k := by
  unfold rebuild
  split
  · simp
  case h_2 content _ =>
    have hmake := c.holder?_make key k content
    split <;> next hm => rw [hm] at hmake; simpa using hmake

/-- A call that opens its source compiles it. -/
lemma completes_opening (hq : q.key? = some key) :
    Completes t q .opening c 5 (q.answer (c.rebuild t key).1 ((c.rebuild t key).2.freeSlot key))
      ((c.rebuild t key).2.freeSlot key) := by
  refine .goes (step_of_wants hq rfl) ?_
  cases hopen : c.openSource t key with
  | error e =>
    rw [rebuild_of_unopened hopen]
    exact .goes (step_of_wants hq rfl) ((completes_leaving hq).mono (by omega))
  | ok content =>
    obtain ⟨result, d, hmake⟩ : ∃ result d, c.make key content = (result, d) := ⟨_, _, rfl⟩
    have hstep : c.step t 0 q (.making (.ok content)) = settled q (c.workStep t 0 key _ _) :=
      step_of_wants hq rfl
    simp only [workStep, hmake] at hstep
    cases result with
    | error e =>
      rw [rebuild_of_failed hopen hmake]
      exact .goes hstep ((completes_leaving hq).mono (by omega))
    | ok v =>
      rw [rebuild_of_made hopen hmake]
      have hstore : d.compiled.step t 0 q (.storing v) = _ := step_of_wants hq rfl
      exact .goes hstep (.goes hstore (completes_leaving hq))

/-- A call that comes to a free slot and finds that there is work to do does it. -/
theorem completes_asking {evicted : Bool} {d : Cache} (hq : q.key? = some key)
    (hfree : c.holder? key = none)
    (hagain : q.again key evicted ((c.askSlot key).takeSlot key 0) = (.opening, d)) :
    Completes t q (.waiting evicted) (c.askSlot key) 7
      (q.answer (d.rebuild t key).1 ((d.rebuild t key).2.freeSlot key))
      ((d.rebuild t key).2.freeSlot key) :=
  completes_waiting hq (by rwa [holder?_askSlot])
    (completes_holding hq hagain (completes_opening hq))

/-! What a call does first. -/

lemma step_start_of_lookupKey? (hq : q.lookupKey? = some key) :
    c.step t who q .start = settled q (c.lookupStep t who key .start) := by
  cases q with
  | lookup path =>
    obtain rfl := Option.some.inj hq
    cases hstep : c.lookupStep t who (Path.normalizeLogical path) .start <;>
      simp [step, hstep, settled, Request.settle]
  | render path model =>
    obtain rfl := Option.some.inj hq
    rw [settled_render]
    rfl
  | invalidate path | get path | clear => cases hq

lemma again_of_lookupKey? (hq : q.lookupKey? = some key) : q.again = lookAgain := by
  cases q <;> first | rfl | cases hq

lemma again_of_invalidationKey? (hq : q.invalidationKey? = some key) : q.again = evictAgain := by
  cases q <;> first | rfl | cases hq

lemma step_start_of_invalidationKey? (hq : q.invalidationKey? = some key) :
    c.step t who q .start = c.invalidateStep t who key .start := by
  cases q <;> cases hq
  rfl

end Cache

end CompiledViews
