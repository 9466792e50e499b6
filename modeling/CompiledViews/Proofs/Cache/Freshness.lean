import CompiledViews.Proofs.Cache.Compiles

/-!
Freshness after an invalidation. Once an invalidation has returned, every view of its key that is
stored or returned comes from a source that was opened after the invalidation began.
-/

namespace CompiledViews

namespace Cache

variable {c c' : Cache} {t : FileTree} {who : Caller} {q : Request} {s s' : Stage} {o : Outcome}
  {key : String}

/-- An invalidation that goes on either puts off looking for an entry until it has the slot, or
leaves its key without an entry, or has done so before. -/
lemma Move.invalidation_cases (h : c.Move t who q s o) (hq : q.invalidationKey? = some key)
    (ho : o = .going s' c') :
    (s' = .waiting false ∨ s' = .holding false) ∨
      (c'.entry? key = none ∧ (s.holds ∨ c.entry? key ≠ none) ∧ (s'.builds → s' = .opening) ∧
        ∀ id, s' ≠ .leaving (.view id)) ∨
      (s ≠ .start ∧ s ≠ .waiting false ∧ s ≠ .holding false ∧
        ∀ id, s' = .leaving (.view id) → c.entry? key = some id ∨ c'.entry? key = some id) := by
  have hkey := Request.key?_of_invalidationKey? hq
  have hleaving : ∀ id, s' = .leaving (.view id) →
      c.entry? key = some id ∨ c'.entry? key = some id := by
    intro id hs'
    have hcases : c.entry? key = some id ∨ entry? (o.cache c) key = some id :=
      h.stage_eq_leaving hkey (by rw [ho]; exact hs')
    rwa [ho] at hcases
  cases h with
  | hit hq' | miss hq' | hitLate hq' =>
    cases q <;> simp_all [Request.lookupKey?, Request.invalidationKey?]
  | leaves =>
    cases q <;> simp_all [Request.settle, Request.invalidationKey?]
  | @take _ _ evicted =>
    cases ho
    cases evicted <;> simp
  | ask => cases ho; simp
  | @evict _ key' id hq' he =>
    obtain rfl : key' = key := Option.some.inj (hq'.symm.trans hq)
    cases ho
    exact .inr (.inl ⟨by simp [entry?_evict], .inr (by simp [he]), by simp [Stage.builds], by simp⟩)
  | @evictLate _ key' id hq' he =>
    obtain rfl : key' = key := Option.some.inj (hq'.symm.trans hq)
    cases ho
    exact .inr (.inl ⟨by simp [entry?_evict], .inl rfl, by simp, by simp⟩)
  | @absent _ key' hq' he =>
    obtain rfl : key' = key := Option.some.inj (hq'.symm.trans hq)
    cases ho
    exact .inr (.inl ⟨he, .inl rfl, by simp [Stage.builds], by simp⟩)
  | unknown | forget | ignore | renders | gets | clears => cases ho
  | _ => exact .inr (.inr ⟨by simp, by simp, by simp, hleaving⟩)

/-- An invalidation returns what it leaves with, or its key is not registered. -/
lemma Move.invalidation_finished {a : Answer} (h : c.Move t who q s o)
    (hq : q.invalidationKey? = some key) (ho : o = .finished a c') :
    s = .leaving a ∨ ¬ c.registry.contains key ∧ ∀ id, a ≠ .view id := by
  cases h with
  | hit hq' | unknown hq' => cases q <;> simp_all [Request.lookupKey?, Request.invalidationKey?]
  | @forget _ key' _ hq' _ hr | @ignore _ key' hq' _ hr =>
    obtain rfl : key' = key := Option.some.inj (hq'.symm.trans hq)
    cases ho
    exact .inr ⟨hr, by simp⟩
  | leaves => cases q <;> simp_all [Request.settle, Request.invalidationKey?]
  | renders | gets | clears => simp [Request.invalidationKey?] at hq
  | _ => cases ho

end Cache

namespace Run

variable {r : Run} {who : Caller} {q : Request} {path key : String} {n b t e : ℕ} {s : Stage}
  {o : Outcome} {a : Answer}

/-- A move that leaves no entry for a key makes a new start for it, if nobody else is making a view
for the key, and the mover has not come further than the opening of the source. -/
lemma upToDate_of_emptied (h : (r.state t).Moves (r.state (t + 1)) who q s o)
    (he : Cache.entry? (o.cache (r.state t).cache) key = none)
    (hothers : ∀ w q' s', w ≠ who → (r.state t).call? w = some (q', s') → q'.key? = some key →
      ¬ s'.builds) (hown : o.stage.builds → o.stage = .opening) :
    r.UpToDate n key (t + 1) := by
  refine .of_empty (by rwa [entryAt, h.cache]) fun w q' s' hcall hq hs => ?_
  by_cases hw : w = who
  · subst hw
    obtain ⟨rfl, rfl⟩ := h.call_of_stage hcall (by rintro rfl; simp [Stage.builds] at hs)
    exact hown hs
  · rw [h.others w hw] at hcall
    exact absurd hs (hothers w q' s' hw hcall hq)

/-- Nobody builds a view for a key beside the one who holds its slot. -/
lemma not_builds_of_holds (h : (r.state t).call? who = some (q, s)) (hs : s.holds)
    (hq : q.key? = some key) (w : Caller) (q' : Request) (s' : Stage) (hw : w ≠ who)
    (hcall : (r.state t).call? w = some (q', s')) (hq' : q'.key? = some key) : ¬ s'.builds := by
  intro hbuilds
  exact hw ((r.coherent t).holder_unique hcall h (Stage.holds_of_builds hbuilds) hs hq' hq)

/-- Nobody builds a view for a key that has an entry. -/
lemma not_builds_of_entry {id : Nat} (h : r.entryAt key t = some id) (w : Caller) (q' : Request)
    (s' : Stage) (hcall : (r.state t).call? w = some (q', s')) (hq' : q'.key? = some key) :
    ¬ s'.builds := by
  intro hbuilds
  have he := (r.coherent t).absent w q' s' key hcall hbuilds hq'
  rw [entryAt, he] at h
  cases h

/-- Nothing is stored for a key that is not registered, and nobody builds a view for it. -/
lemma upToDate_of_unknown (h : ¬ (r.state t).cache.registry.contains key) : r.UpToDate n key t := by
  refine .of_empty ?_ fun w q' s' hcall hq' hs' => ?_
  · cases he : r.entryAt key t with
    | none => rfl
    | some id => exact absurd ((r.coherent t).sound.known key id he) h
  · have hwants := Stage.wants_of_holds (Stage.holds_of_builds hs')
    exact absurd ((r.coherent t).known w q' s' key hcall hwants hq') h

/-- An invalidation that has found no entry at its start has yet to look again, when it has the
slot. Any other has made a new start for its key, and leaves only with a view compiled since. -/
theorem Reaches.upToDate (h : r.Reaches who (.invalidate path) b t s) :
    s = .start ∨ s = .waiting false ∨ s = .holding false ∨
      b < t ∧ r.UpToDate (b + 1) (Path.normalizeLogical path) t ∧
        ∀ id, s = .leaving (.view id) →
          r.CompiledSince (b + 1) (Path.normalizeLogical path) id := by
  induction h with
  | begins => exact .inl rfl
  | @waits t s h ha ih =>
    refine ih.imp_right (Or.imp_right (Or.imp_right ?_))
    rintro ⟨hbt, hup, hleaving⟩
    exact ⟨Nat.lt_succ_of_lt hbt, hup.succ hbt, hleaving⟩
  | @goes t s s' c h ha ho ih =>
    have hmoves := moves_of_call? h.call? ha
    rw [ho] at hmoves
    have hbt : b < t + 1 := Nat.lt_succ_of_le h.le
    have hq : (Request.invalidate path).key? = some (Path.normalizeLogical path) := rfl
    rcases hmoves.move.invalidation_cases rfl rfl with
      hlater | ⟨hnone, hwhy, hown, hview⟩ | ⟨hs, hw, hh, hfound⟩
    · exact .inr (hlater.imp_right .inl)
    · -- nobody else was making a view: the slot is the caller's, or there was an entry
      have hothers : ∀ w q' s', w ≠ who → (r.state t).call? w = some (q', s') →
          q'.key? = some (Path.normalizeLogical path) → ¬ s'.builds := by
        intro w q' s' hw hcall hq'
        rcases hwhy with hholds | hsome
        · exact not_builds_of_holds h.call? hholds hq w q' s' hw hcall hq'
        · obtain ⟨id, he⟩ := Option.ne_none_iff_exists'.mp hsome
          exact not_builds_of_entry he w q' s' hcall hq'
      have hup : r.UpToDate (b + 1) (Path.normalizeLogical path) (t + 1) :=
        upToDate_of_emptied hmoves hnone hothers hown
      exact .inr (.inr (.inr ⟨hbt, hup, fun id hid => absurd hid (hview id)⟩))
    · obtain ⟨hbt', hup, -⟩ := ((ih.resolve_left hs).resolve_left hw).resolve_left hh
      have hup' := hup.succ hbt'
      refine .inr (.inr (.inr ⟨hbt, hup', fun id hid => ?_⟩))
      rcases hfound id hid with he | he
      · exact hup.compiledSince he
      · exact hup'.compiledSince (by rw [entryAt, hmoves.cache]; exact he)

/-- Once an invalidation has returned, its key is up to date. -/
theorem Returns.upToDate (h : r.Returns who (.invalidate path) b e a) :
    r.UpToDate (b + 1) (Path.normalizeLogical path) (e + 1) ∧
      ∀ id, a = .view id → r.CompiledSince (b + 1) (Path.normalizeLogical path) id := by
  obtain ⟨s, c, hsteps, ho⟩ := h
  rcases hsteps.move.invalidation_finished rfl ho with rfl | ⟨hunknown, hview⟩
  · rcases hsteps.1.upToDate with hs | hs | hs | ⟨hbe, hup, hleaving⟩
    · cases hs
    · cases hs
    · cases hs
    · exact ⟨hup.succ hbe, fun id hid => hleaving id (by rw [hid])⟩
  · refine ⟨upToDate_of_unknown ?_, fun id hid => absurd hid (hview id)⟩
    rwa [hsteps.moves.cache, hsteps.move.registry_eq]

/-- Once an invalidation has returned an answer of any kind, every view that is stored for its key
from then on, the view that it has returned itself, and every view that a lookup begun later
returns, comes from a compile that opened the source after the invalidation began. -/
theorem compiledSince_of_invalidated {path : String} {who : Caller} {b e : ℕ} {a : Answer}
    (h : r.Returns who (.invalidate path) b e a) :
    (∀ t id, e < t → r.entryAt (Path.normalizeLogical path) t = some id →
      r.CompiledSince (b + 1) (Path.normalizeLogical path) id) ∧
    (∀ id, a = .view id → r.CompiledSince (b + 1) (Path.normalizeLogical path) id) ∧
    ∀ who' path' b' e' id, r.Returns who' (.lookup path') b' e' (.view id) →
      Path.normalizeLogical path' = Path.normalizeLogical path → e < b' →
      r.CompiledSince (b + 1) (Path.normalizeLogical path) id := by
  have hbe := h.le
  obtain ⟨hup, hview⟩ := h.upToDate
  have hstored : ∀ t id, e < t → r.entryAt (Path.normalizeLogical path) t = some id →
      r.CompiledSince (b + 1) (Path.normalizeLogical path) id :=
    fun t id het he => (hup.later (Nat.succ_le_succ hbe) het).compiledSince he
  refine ⟨hstored, hview, fun who' path' b' e' id hlookup hkey heb => ?_⟩
  obtain ⟨u, hbu, -, he⟩ := hlookup.entry rfl
  exact hstored u id (Nat.lt_of_lt_of_le heb hbu) (hkey ▸ he)

theorem compiledSince_of_invalidated_once :
    invalidatedOnce.Returns 1 (.invalidate "/a") 8 14 (.view 1) ∧
      invalidatedOnce.CompiledSince 9 (Path.normalizeLogical "/a") 1 := by
  have hreach : invalidatedOnce.Reaches 1 (.invalidate "/a") 8 14 _ :=
    .goes (.goes (.goes (.goes (.goes (.goes (.begins rfl rfl) rfl rfl) rfl rfl) rfl rfl) rfl rfl)
      rfl rfl) rfl rfl
  have hreturns : invalidatedOnce.Returns 1 (.invalidate "/a") 8 14 (.view 1) :=
    ⟨_, _, ⟨hreach, rfl⟩, rfl⟩
  exact ⟨hreturns, (compiledSince_of_invalidated hreturns).2.1 1 rfl⟩

end Run

end CompiledViews
