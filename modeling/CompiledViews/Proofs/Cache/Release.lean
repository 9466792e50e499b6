import CompiledViews.Proofs.Cache.Compiles

/-!
The release of views. A view that has been stored is kept as it was as long as it is the entry of
its key, and once it is not, its module has been asked exactly once to release what it holds.
-/

namespace CompiledViews

/-- The module of a view that is not released is asked for it once. -/
theorem View.release_of_not_released {v : View} (h : v.released = false) :
    v.release = { v with released := true, module := v.module.release } := by
  simp [release, h]

namespace Machine

variable {m m' : Machine} {w : Caller} {q : Request} {s : Stage} {o : Outcome}

/-- A number stands for one view: a move makes no entry of a view that was there before. -/
lemma Coherent.entry?_of_old (hm : m.Coherent) (h : m.Moves m' w q s o) {key : String} {id : Nat}
    {v : View} (hv : m.cache.views[id]? = some v) (he : m'.cache.entry? key = some id) :
    m.cache.entry? key = some id := by
  rcases hm.entry?_of_moves h he with hold | ⟨v', -, -, rfl, -⟩
  · exact hold
  · simp at hv

/-- The view of a number is the entry of a key, or of none and released. -/
def Kept (m : Machine) (key : String) (id : Nat) (v : View) : Prop :=
  m.cache.entry? key = some id ∧ m.cache.views[id]? = some v ∨
    (∀ k, m.cache.entry? k ≠ some id) ∧ m.cache.views[id]? = some v.release

lemma Kept.of_moves {key : String} {id : Nat} {v : View} (hk : m.Kept key id v) (hm : m.Coherent)
    (h : m.Moves m' w q s o) : m'.Kept key id v := by
  rcases hk with ⟨he, hv⟩ | ⟨hno, hv⟩
  · rcases hm.views_of_moves h hv with ⟨hv', hkeeps⟩ | ⟨hv', k, hk, hnone⟩
    · exact .inl ⟨hkeeps key he, hv'⟩
    · refine .inr ⟨fun k' he' => ?_, hv'⟩
      -- the key that lost its entry is the only one that had it
      have hsame := hm.sound.single k k' id hk (hm.entry?_of_old h hv he')
      rw [← hsame, hnone] at he'
      cases he'
  · rcases hm.views_of_moves h hv with ⟨hv', -⟩ | ⟨-, k, hk, -⟩
    · exact .inr ⟨fun k he => hno k (hm.entry?_of_old h hv he), hv'⟩
    · exact absurd hk (hno k)

lemma Kept.of_rests {key : String} {id : Nat} {v : View} (hk : m.Kept key id v)
    (h : m.Rests m') : m'.Kept key id v := by
  rwa [Kept, h.cache]

end Machine

namespace Run

variable {r : Run} {who : Caller} {q : Request} {key : String} {b u t : ℕ} {v : View} {id : Nat}

/-- A view that has just been stored is the entry of its key. -/
lemma Stores.kept_succ (h : r.Stores who q b u key v id) :
    (r.state (u + 1)).Kept key id v := by
  obtain ⟨hsteps, hq, rfl⟩ := h
  have hstoring := hsteps.move.storing_eq.2 key hq
  have hviews := hstoring.2 ((r.coherent u).absent who q _ key hsteps.1.call? rfl hq)
  rw [← hsteps.moves.cache] at hstoring hviews
  exact .inl ⟨hstoring.1, by simp [hviews]⟩

lemma Stores.released (h : r.Stores who q b u key v id) : v.released = false :=
  (r.coherent u).fresh who q v h.1.1.call?

/-- Whatever happens to a view after it has been stored, it is kept, or taken out and released. -/
theorem Stores.kept (h : r.Stores who q b u key v id) (ht : u < t) : (r.state t).Kept key id v := by
  induction ht with
  | refl => exact h.kept_succ
  | @step t _ ih =>
    rcases r.moves_or_rests t with ⟨w, q', s, o, -, hmoves⟩ | ⟨-, hrests⟩
    · exact ih.of_moves (r.coherent t) hmoves
    · exact ih.of_rests hrests

/-- Every entry has been stored before. -/
theorem exists_stores (he : r.entryAt key t = some id) :
    ∃ who q b u v, r.Stores who q b u key v id ∧ u < t := by
  induction t with
  | zero =>
    rw [entryAt_zero] at he
    cases he
  | succ t ih =>
    have hlater : r.entryAt key t = some id →
        ∃ who q b u v, r.Stores who q b u key v id ∧ u < t + 1 := by
      intro hold
      obtain ⟨who, q, b, u, v, hstores, hut⟩ := ih hold
      exact ⟨who, q, b, u, v, hstores, Nat.lt_succ_of_lt hut⟩
    rcases r.moves_or_rests t with ⟨w, q, s, o, ha, hmoves⟩ | ⟨-, hrests⟩
    · rcases (r.coherent t).entry?_of_moves hmoves he with hold | ⟨v, rfl, hq, rfl, -⟩
      · exact hlater hold
      · obtain ⟨b, hreach⟩ := exists_reaches (by simp) hmoves.call
        exact ⟨w, q, b, t, v, ⟨⟨hreach, ha⟩, hq, rfl⟩, Nat.lt_succ_self t⟩
    · exact hlater (by rwa [entryAt, hrests.cache] at he)

/-- The entry of a key is a view as it was stored, and not released. -/
theorem exists_view_of_entryAt (he : r.entryAt key t = some id) :
    ∃ who q b u v, r.Stores who q b u key v id ∧ u < t ∧
      (r.state t).cache.views[id]? = some v ∧ v.released = false := by
  obtain ⟨who, q, b, u, v, hstores, hut⟩ := exists_stores he
  rcases hstores.kept hut with ⟨-, hv⟩ | ⟨hno, -⟩
  · exact ⟨who, q, b, u, v, hstores, hut, hv, hstores.released⟩
  · exact absurd he (hno key)

/-- A cache that goes away has released every view that was ever stored. -/
theorem Stores.dropped (h : r.Stores who q b u key v id) (ht : u < t) :
    (r.state t).cache.drop.views[id]? = some v.release := by
  rw [Cache.getElem?_drop]
  rcases h.kept ht with ⟨he, hv⟩ | ⟨hno, hv⟩
  · simp [hv, (Cache.mem_values_iff _ id).mpr ⟨key, he⟩]
  · have hm : id ∉ (r.state t).cache.entries.values := by
      intro hm
      obtain ⟨k, hk⟩ := (Cache.mem_values_iff _ id).mp hm
      exact hno k hk
    simp [hv, hm]

/-- Every entry is a view as it was stored and not released. A view that has been stored and is not
the entry of its key any more is released, its module was asked once. What a lookup or an
invalidation returns was such an entry during the call. When the cache goes away, all views that
were ever stored are released, and each module was asked once. -/
theorem released_once_when_taken_out (r : Run) :
    (∀ t key id, r.entryAt key t = some id → ∃ who q b u v, r.Stores who q b u key v id ∧ u < t ∧
      (r.state t).cache.views[id]? = some v ∧ v.released = false) ∧
    (∀ who q b u key v id t, r.Stores who q b u key v id → u < t → r.entryAt key t ≠ some id →
      ∃ w, (r.state t).cache.views[id]? = some w ∧ w.released ∧
        w.module.requests = v.module.requests + 1) ∧
    (∀ who q b e key id, r.Returns who q b e (.view id) → q.key? = some key →
      ∃ u v, b ≤ u ∧ u ≤ e ∧ r.entryAt key u = some id ∧
        (r.state u).cache.views[id]? = some v ∧ v.released = false) ∧
    (∀ t, (∀ key, Cache.entry? (r.state t).cache.drop key = none) ∧
      ∀ who q b u key v id, r.Stores who q b u key v id → u < t →
        ∃ w, (r.state t).cache.drop.views[id]? = some w ∧ w.released ∧
          w.module.requests = v.module.requests + 1) := by
  have hrelease : ∀ v : View, v.released = false →
      v.release.released ∧ v.release.module.requests = v.module.requests + 1 := by
    intro v hv
    simp [View.release_of_not_released hv, Module.release]
  refine ⟨fun t key id he => exists_view_of_entryAt he, ?_, ?_, fun t => ⟨by simp, ?_⟩⟩
  · intro who q b u key v id t h hut hne
    rcases h.kept hut with ⟨he, -⟩ | ⟨-, hv⟩
    · exact absurd he hne
    · exact ⟨v.release, hv, hrelease v h.released⟩
  · intro who q b e key id h hq
    obtain ⟨u, hbu, hue, he⟩ := h.entry hq
    obtain ⟨-, -, -, -, v, -, -, hv, hreleased⟩ := exists_view_of_entryAt he
    exact ⟨u, v, hbu, hue, he, hv, hreleased⟩
  · intro who q b u key v id h hut
    exact ⟨v.release, h.dropped hut, hrelease v h.released⟩

theorem released_once_when_invalidated_once :
    invalidatedOnce.entryAt "/a" 7 = some 0 ∧ invalidatedOnce.entryAt "/a" 9 = none ∧
      ∃ w, (invalidatedOnce.state 9).cache.views[0]? = some w ∧ w.released ∧
        w.module.requests = 1 := by
  have hreach : invalidatedOnce.Reaches 1 (.lookup "/a") 1 6 _ :=
    .goes (.goes (.goes (.goes (.goes (.begins rfl rfl) rfl rfl) rfl rfl) rfl rfl) rfl rfl) rfl rfl
  have hnone : invalidatedOnce.entryAt "/a" 9 = none := rfl
  exact ⟨rfl, hnone, (released_once_when_taken_out invalidatedOnce).2.1 1 (.lookup "/a") 1 6 "/a" _ 0 9
    ⟨⟨hreach, rfl⟩, rfl, rfl⟩ (by decide) (by simp [hnone])⟩

end Run

end CompiledViews
