import CompiledViews.Proofs.Cache.Balance
import CompiledViews.Proofs.Module.Loading

/-!
The accounts of a cache. When no call is under way the counts add up, a key that was never looked
up has not been compiled, and the host has a record of each compilation and of nothing else.
-/

namespace CompiledViews

open Request

theorem load_eq_ok {h h' : Host} {i : Image} {v : Module} (hload : load h i = .ok (v, h')) :
    ∃ record, h' = h.insert i.module record := by
  simp only [load] at hload
  split at hload
  · cases hload
  case h_2 m _ =>
    split at hload
    · cases hload
    case isFalse hname =>
      split at hload
      · cases hload
      · cases hload
        exact ⟨⟨m.ns, m.inherits⟩, by rw [not_not.mp hname]⟩

namespace Workshop

variable {w : Workshop} {n : ℕ} {path : String} {content : Content} {e : ViewError} {v : View}

/-- The workshop names no two modules alike and loads each under its name, and its host has a record
of `n` of them. -/
structure Recorded (n : ℕ) (w : Workshop) : Prop where
  loads : w.tools.load = CompiledViews.load
  named : ∀ (module code : String) (image : Image), w.tools.compile module code = .ok image →
    image.module = module
  injective : Function.Injective w.nameOf
  begun : ∀ (name : String), w.host.contains name → ∃ i ≤ w.begun, name = w.nameOf i
  size : w.host.size = n

lemma Recorded.of_empty (hloads : w.tools.load = CompiledViews.load)
    (hnamed : ∀ module code image, w.tools.compile module code = .ok image → image.module = module)
    (hinjective : Function.Injective w.nameOf) (hhost : w.host = {}) : w.Recorded 0 := by
  refine ⟨hloads, hnamed, hinjective, fun name hname => ?_, ?_⟩
  · simp [hhost, Table.contains] at hname
  · rw [hhost]
    rfl

/-- A view that cannot be made leaves a number behind, and nothing else. -/
theorem make_of_error (h : (w.make path content).1 = .error e) :
    (w.make path content).2 = { w with begun := w.begun + 1 } := by
  simp only [make] at h ⊢
  split
  · rfl
  · rfl
  case h_3 code hcode =>
    simp only [hcode] at h
    split
    · rfl
    case h_2 image himage =>
      simp only [himage] at h
      split
      · rfl
      case h_2 m host hload =>
        simp only [hload] at h
        cases h

/-- A view that is made has been loaded under the next name. -/
theorem make_of_ok (h : (w.make path content).1 = .ok v) :
    ∃ code image m host, w.tools.compile (w.nameOf (w.begun + 1)) code = .ok image ∧
      w.tools.load w.host image = .ok (m, host) ∧
      (w.make path content).2 = { w with begun := w.begun + 1, host := host } := by
  simp only [make] at h ⊢
  split at h
  · cases h
  · cases h
  case h_3 code hcode =>
    split at h
    · cases h
    case h_2 image himage =>
      split at h
      · cases h
      case h_2 m host hload =>
        exact ⟨code, image, m, host, himage, hload, rfl⟩

lemma Recorded.make_error (hw : w.Recorded n) (h : (w.make path content).1 = .error e) :
    (w.make path content).2.Recorded n := by
  rw [make_of_error h]
  refine ⟨hw.loads, hw.named, hw.injective, fun name hname => ?_, hw.size⟩
  obtain ⟨i, hi, rfl⟩ := hw.begun name hname
  exact ⟨i, Nat.le_succ_of_le hi, rfl⟩

/-- The next name is new, so its record is one more. -/
lemma Recorded.make_ok (hw : w.Recorded n) (h : (w.make path content).1 = .ok v) :
    (w.make path content).2.Recorded (n + 1) := by
  obtain ⟨code, image, m, host, hcompile, hload, hmake⟩ := make_of_ok h
  have hname := hw.named _ _ _ hcompile
  rw [hw.loads] at hload
  obtain ⟨record, rfl⟩ := load_eq_ok hload
  have hnew : w.host.get? image.module = none := by
    by_contra hne
    obtain ⟨i, hi, heq⟩ := hw.begun image.module (Option.isSome_iff_ne_none.mpr hne)
    have := hw.injective (hname.symm.trans heq)
    omega
  rw [hmake]
  refine ⟨hw.loads, hw.named, hw.injective, fun name hcontains => ?_, ?_⟩
  · simp only [Table.contains, Table.get?_insert] at hcontains
    split at hcontains
    case isTrue heq => exact ⟨w.begun + 1, Nat.le_refl _, heq.trans hname⟩
    case isFalse =>
      obtain ⟨i, hi, rfl⟩ := hw.begun name hcontains
      exact ⟨i, Nat.le_succ_of_le hi, rfl⟩
  · exact (Table.size_insert hnew record).trans (congrArg (· + 1) hw.size)

end Workshop

namespace Cache

variable {c : Cache} {t : FileTree} {who : Caller} {q : Request} {s : Stage} {o : Outcome}

/-- Only a view that is made, or cannot be, changes the workshop or counts as a compilation. -/
theorem Move.workshop_cases (h : c.Move t who q s o) :
    (o.cache c).workshop = c.workshop ∧
        (o.cache c).counts.compilations = c.counts.compilations ∨
      ∃ key content, (o.cache c).workshop = (c.workshop.make key content).2 ∧
        ((∃ e, (c.workshop.make key content).1 = .error e ∧
            (o.cache c).counts.compilations = c.counts.compilations) ∨
          ∃ v, (c.workshop.make key content).1 = .ok v ∧ o.stage = .storing v ∧
            (o.cache c).counts.compilations = c.counts.compilations + 1) := by
  cases h with
  | evict hq he | forget hq he | evictLate hq he => simp [counts_evict _ _ _ he]
  | @fails q key content e hq hfail => exact .inr ⟨key, content, rfl, .inl ⟨e, hfail, rfl⟩⟩
  | @makes q key content v hq hmade => exact .inr ⟨key, content, rfl, .inr ⟨v, hmade, rfl, rfl⟩⟩
  | _ => simp

/-- An invalidation of a key without an entry compiles nothing. -/
theorem Move.of_invalidation {key : String} (h : c.Move t who q s o)
    (hq : q.invalidationKey? = some key) (he : c.entry? key = none)
    (hs : s = .start ∨ s = .waiting false ∨ s = .holding false ∨ s = .leaving .nothing) :
    o.stage = .start ∨ o.stage = .waiting false ∨ o.stage = .holding false ∨
      o.stage = .leaving .nothing := by
  have hkey : ∀ {key'}, q.invalidationKey? = some key' → c.entry? key' = none := by
    intro key' hq'
    rwa [← Option.some.inj (hq.symm.trans hq')]
  cases h with
  | hit hq' | hitLate hq' | miss hq' => simp [invalidationKey?_of_lookupKey? hq'] at hq
  | evict hq' he' | evictLate hq' he' => simp [hkey hq'] at he'
  | leaves => cases q <;> simp_all [settle, invalidationKey?]
  | _ => simp_all

end Cache

namespace Run

variable {r : Run} {who : Caller} {q : Request} {s : Stage} {b t : ℕ} {key : String}

/-- At time `t` a key has never been compiled: it has no entry, and whoever is at it has found that
there is nothing to invalidate, or will. -/
structure Untouched (r : Run) (key : String) (t : ℕ) : Prop where
  absent : r.entryAt key t = none
  calls : ∀ (who : Caller) (q : Request) (s : Stage), (r.state t).call? who = some (q, s) →
    q.key? = some key → s ≠ .start → q.invalidationKey? = some key ∧
      (s = .waiting false ∨ s = .holding false ∨ s = .leaving .nothing)

/-- What is not looked up is not compiled. -/
theorem untouched (h : ∀ who q b, b < t → r.Begins who q b → q.lookupKey? ≠ some key) :
    r.Untouched key t := by
  induction t with
  | zero =>
    refine ⟨entryAt_zero key, fun who q s hcall => ?_⟩
    rw [r.call?_zero] at hcall
    cases hcall
  | succ t ih =>
    have hbefore := ih fun who q b hb => h who q b (Nat.lt_succ_of_lt hb)
    rcases r.moves_or_rests t with ⟨w, q, s, o, ha, hmoves⟩ | ⟨-, hrests⟩
    · constructor
      · by_contra hne
        obtain ⟨id, he⟩ := Option.ne_none_iff_exists'.mp hne
        rcases (r.coherent t).entry?_of_moves hmoves he with hold | ⟨v, rfl, hq, -⟩
        · exact absurd (hold.symm.trans hbefore.absent) (by simp)
        · have hstage := (hbefore.calls w q _ hmoves.call hq (by simp)).2
          simp at hstage
      · intro who q' s' hcall hq hs
        by_cases hw : who = w
        · subst hw
          obtain ⟨rfl, rfl⟩ := hmoves.call_of_stage hcall hs
          have hcalls : q'.invalidationKey? = some key ∧ (s = .start ∨ s = .waiting false ∨
              s = .holding false ∨ s = .leaving .nothing) := by
            by_cases hstart : s = .start
            · subst hstart
              have hno := h who q' t (Nat.lt_succ_self t) ⟨ha, hmoves.call⟩
              exact ⟨invalidationKey?_of_key? hq hno, .inl rfl⟩
            · obtain ⟨hkey, hstage⟩ := hbefore.calls who q' s hmoves.call hq hstart
              exact ⟨hkey, .inr hstage⟩
          have hstage := hmoves.move.of_invalidation hcalls.1 hbefore.absent hcalls.2
          exact ⟨hcalls.1, hstage.resolve_left hs⟩
        · exact hbefore.calls who q' s' (hmoves.others who hw ▸ hcall) hq hs
    · refine ⟨?_, fun who q s hcall hq hs => ?_⟩
      · rw [entryAt, hrests.cache]
        exact hbefore.absent
      · exact hbefore.calls who q s (hrests.call?_of_ne_start hcall hs) hq hs

/-- A lookup that has been answered before time `t`, and not for want of a source. -/
def Answered (r : Run) (t : ℕ) (who : Caller) (q : Request) (b : ℕ) : Prop :=
  q.lookupKey?.isSome ∧
    ∃ e < t, ∃ a, r.Returns who q b e a ∧ ∀ path, a ≠ .error ⟨path, .unknownSource⟩

/-- An answer is given once. -/
lemma Returns.unique {e e' : ℕ} {a a' : Answer} (h : r.Returns who q b e a)
    (h' : r.Returns who q b e' a') : e = e' ∧ a = a' := by
  obtain ⟨s, c, hsteps, ho⟩ := h
  obtain ⟨s', c', hsteps', ho'⟩ := h'
  obtain rfl := Nat.le_antisymm (hsteps.1.le_of_returns ⟨s', c', hsteps', ho'⟩)
    (hsteps'.1.le_of_returns ⟨s, c, hsteps, ho⟩)
  obtain rfl := hsteps.stage_unique hsteps'
  rw [ho] at ho'
  cases ho'
  exact ⟨rfl, rfl⟩

/-- When no call is under way, a lookup that has not been told that there is no source has been told
something else. -/
lemma Begins.answered_iff (h : r.Begins who q b) (hb : b < t) (hcalm : (r.state t).Calm) :
    r.Answered t who q b ↔ r.LooksUp t who q b := by
  refine and_congr_right fun _ => ⟨?_, fun hno => ?_⟩
  · rintro ⟨e, -, a, hreturns, ha⟩ ⟨e', -, path, hreturns'⟩
    exact ha path (hreturns.unique hreturns').2
  · obtain ⟨e, a, he, hreturns⟩ := h.returned hb (hcalm who q)
    refine ⟨e, he, a, hreturns, ?_⟩
    rintro path rfl
    exact hno ⟨e, he, path, hreturns⟩

/-- The host has a record of each compilation, under a name of its own. -/
theorem recorded (h : (r.state 0).cache.workshop.Recorded 0) (t : ℕ) :
    (r.state t).cache.workshop.Recorded (r.state t).cache.counts.compilations := by
  induction t with
  | zero =>
    rw [(counts_zero r).2]
    exact h
  | succ t ih =>
    rcases r.moves_or_rests t with ⟨w, q, s, o, ha, hmoves⟩ | ⟨-, hrests⟩
    · rw [hmoves.cache]
      rcases hmoves.move.workshop_cases with ⟨hsame, hcount⟩ | ⟨key, content, hmake, hcases⟩
      · rwa [hsame, hcount]
      · rcases hcases with ⟨e, he, hcount⟩ | ⟨v, hv, -, hcount⟩
        · rw [hmake, hcount]
          exact ih.make_error he
        · rw [hmake, hcount]
          exact ih.make_ok hv
    · rwa [hrests.cache]

/-- A compile that fails leaves the host as it is. -/
theorem Fails.host_eq {e : ViewError} (h : r.Fails who q b t e) :
    (r.state (t + 1)).cache.workshop.host = (r.state t).cache.workshop.host := by
  obtain ⟨opened, hsteps, hstage⟩ := h
  rw [hsteps.moves.cache]
  rcases hsteps.move.workshop_cases with ⟨hsame, -⟩ | ⟨key, content, hmake, hcases⟩
  · rw [hsame]
  · rcases hcases with ⟨e', he, -⟩ | ⟨v, -, hstores, -⟩
    · rw [hmake, Workshop.make_of_error he]
    · rw [hstage] at hstores
      cases hstores

/-- No call is under way when all clients are done. -/
lemma calm_of_done (r : Run) (h : (r.state t).clients.all (·.todo.isEmpty)) : (r.state t).Calm := by
  intro who q s hcall
  obtain ⟨cl, rest, hcl, htodo, -⟩ := Machine.call?_eq_some_iff.mp hcall
  have hdone := List.all_eq_true.mp h cl (List.mem_of_getElem? hcl)
  simp [htodo] at hdone

/-- When no call is under way, each compilation is an entry or an eviction, each lookup that knew
its source a hit or a miss, and each compile the work of a miss or of an invalidation that took an
entry out and did not find it rebuilt. A key that was not looked up has not been compiled. A host
that is this cache's alone has as many records as there were compilations. -/
theorem counts_add_up (r : Run) :
    (∀ t, (r.state t).Calm →
      (r.state t).cache.size + (r.state t).cache.counts.evictions =
          (r.state t).cache.counts.compilations ∧
        (r.state t).cache.counts.hits + (r.state t).cache.counts.misses =
          r.tally (r.Answered t) t ∧
        (r.state t).cache.counts.compilations + (r.state t).cache.counts.failures =
          (r.state t).cache.counts.misses + r.tally (r.Evicts t) t) ∧
    (∀ t key, (∀ who q b, b < t → r.Begins who q b → q.lookupKey? ≠ some key) →
      ∀ who q b u s, u ≤ t → r.Reaches who q b u s → q.key? = some key → ¬ s.builds) ∧
    ((r.state 0).cache.workshop.tools.load = load →
      (∀ module code image, (r.state 0).cache.workshop.tools.compile module code = .ok image →
        image.module = module) →
      Function.Injective (r.state 0).cache.workshop.nameOf →
      (r.state 0).cache.workshop.host = {} →
      ∀ t, (r.state t).cache.workshop.host.size = (r.state t).cache.counts.compilations) ∧
    ∀ who q b t e, r.Fails who q b t e →
      (r.state (t + 1)).cache.workshop.host = (r.state t).cache.workshop.host := by
  refine ⟨fun t hcalm => ⟨?_, ?_, ?_⟩, ?_, fun hloads hnamed hinjective hhost t =>
    (recorded (.of_empty hloads hnamed hinjective hhost) t).size, fun who q b t e h => h.host_eq⟩
  · have hsize := size_balance r t
    rwa [hcalm.load_eq_zero unstored_start] at hsize
  · have hlookups := lookups_balance r t
    rw [hcalm.load_eq_zero undecided_start] at hlookups
    rw [tally_congr fun who q b hb h => h.answered_iff hb hcalm]
    exact hlookups
  · have hcompiles := compiles_balance r t
    rwa [hcalm.load_eq_zero unmade_start] at hcompiles
  · intro t key hno who q b u s hut hreach hq hbuilds
    have huntouched := untouched fun who q b hb => hno who q b (Nat.lt_of_lt_of_le hb hut)
    have hs : s ≠ .start := by
      rintro rfl
      cases hbuilds
    obtain ⟨-, rfl | rfl | rfl⟩ := huntouched.calls who q s hreach.call? hq hs <;> cases hbuilds

/-- A cache with a template that can be compiled and one that cannot. -/
def twoTemplates : Machine :=
  .fresh .empty
    ⟨(({} : Table Source).insert "/a" ⟨"/a", .memory "x"⟩).insert "/b" ⟨"/b", .memory "\x7b\x7b"⟩⟩
    { ns := "N"
      tools := .standard ⟨"N", "B", []⟩ []
      nameOf := fun n => .ofList (.replicate n 'V') }

/-- Two templates and one that is not there are looked up, and one is invalidated. -/
def threeLookups : List Action :=
  .call [.lookup "/a", .lookup "/b", .lookup "/c", .invalidate "/a", .clear] ::
    List.replicate 22 (.advance 1)

lemma run_threeLookups : ((twoTemplates.run threeLookups).map fun m =>
    (m.cache.counts, m.clients.all (·.todo.isEmpty))) = some (⟨0, 2, 2, 1, 2⟩, true) := by
  decide +kernel

theorem counts_add_up_three_lookups : ∃ (r : Run) (t : ℕ), (r.state t).Calm ∧
    (r.state t).cache.counts = ⟨0, 2, 2, 1, 2⟩ ∧ r.tally (r.Answered t) t = 2 ∧
    r.tally (r.Evicts t) t = 1 ∧ (r.state t).cache.workshop.host.size = 2 := by
  obtain ⟨m, hrun, hm⟩ := Option.map_eq_some_iff.mp run_threeLookups
  obtain ⟨hcounts, hdone⟩ := Prod.mk.inj hm
  let r : Run := .ofActions twoTemplates threeLookups ⟨_, _, _, rfl⟩ (by simp [hrun])
  have hstate : r.state threeLookups.length = m :=
    (Run.ofActions_state _ _ (Nat.le_refl _)).trans (by simp [hrun])
  have hcalm : (r.state threeLookups.length).Calm := r.calm_of_done (by rw [hstate]; exact hdone)
  obtain ⟨hcalms, -, hhost, -⟩ := counts_add_up r
  obtain ⟨-, hlookups, hcompiles⟩ := hcalms _ hcalm
  have hsize := hhost rfl (fun module code image h => ?_) (fun i j h => ?_) rfl threeLookups.length
  · rw [hstate, hcounts] at hlookups hcompiles hsize
    dsimp only at hlookups hcompiles hsize
    refine ⟨r, _, hcalm, by rw [hstate, hcounts], by omega, by omega, ?_⟩
    rwa [hstate]
  · obtain ⟨m, hm, rfl⟩ := Except.map_eq_ok_iff.mp h
    exact (of_compile_eq_ok hm).1
  · have hlength : ((List.replicate i 'V').length = (List.replicate j 'V').length) :=
      congrArg List.length (String.ofList_injective h)
    simpa using hlength

end Run

end CompiledViews
