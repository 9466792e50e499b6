import CompiledViews.Proofs.Cache.Release
import CompiledViews.Proofs.List
import CompiledViews.Proofs.Path.Logical

/-!
Keys are kept apart. A step of a call bears on the entry, the slot and the views of its own key
alone, since the view that stands under a key was made for it. Every key that an entry or a slot has
is registered and canonical.
-/

namespace CompiledViews

namespace Request

/-- The key that a request is about; a clear is about all keys. -/
def subject? : Request → Option String
  | .lookup path | .invalidate path | .render path _ | .get path =>
    some (Path.normalizeLogical path)
  | .clear => none

variable {q : Request} {key : String}

lemma subject?_of_key? (h : q.key? = some key) : q.subject? = some key := by
  cases q <;> simp_all [key?, subject?]

/-- A key is the canonical form of a path. -/
lemma normalizeLogical_of_subject? (h : q.subject? = some key) :
    Path.normalizeLogical key = key := by
  cases q <;> cases h <;> exact Path.normalizeLogical_normalizeLogical _

end Request

@[simp] lemma View.path_release (v : View) : v.release.path = v.path := by
  unfold release
  split <;> rfl

namespace Cache

/-- Two caches hold the same of a key: its entry, its slot, and its views under their numbers. -/
structure Agrees (k : String) (c d : Cache) : Prop where
  entry : d.entry? k = c.entry? k
  slot : d.slots.get? k = c.slots.get? k
  view : ∀ (id : ℕ) (v : View), v.path = k → (d.views[id]? = some v ↔ c.views[id]? = some v)

/-- Every entry is the view of its key. -/
def Placed (c : Cache) : Prop :=
  ∀ key id, c.entry? key = some id → ∃ v, c.views[id]? = some v ∧ v.path = key

variable {c d e : Cache} {t : FileTree} {who : Caller} {q : Request} {s : Stage} {o : Outcome}
  {k key : String} {v : View}

namespace Agrees

lemma refl (k : String) (c : Cache) : c.Agrees k c := ⟨rfl, rfl, fun _ _ _ => Iff.rfl⟩

lemma trans (h : c.Agrees k d) (h' : d.Agrees k e) : c.Agrees k e :=
  ⟨h'.entry.trans h.entry, h'.slot.trans h.slot,
    fun id v hv => (h'.view id v hv).trans (h.view id v hv)⟩

lemma count (f : Counts → Counts) : c.Agrees k (c.count f) :=
  ⟨rfl, rfl, fun _ _ _ => Iff.rfl⟩

lemma make (key : String) (content : Content) : c.Agrees k (c.make key content).2 :=
  ⟨rfl, rfl, fun _ _ _ => Iff.rfl⟩

lemma askSlot (hne : key ≠ k) : c.Agrees k (c.askSlot key) where
  entry := c.entry?_askSlot key k
  slot := by
    unfold Cache.askSlot
    split
    · rfl
    · exact (Table.get?_insert ..).trans (if_neg (Ne.symm hne))
  view := by simp

lemma takeSlot (hne : key ≠ k) : c.Agrees k (c.takeSlot key who) :=
  ⟨rfl, (Table.get?_insert ..).trans (if_neg (Ne.symm hne)), fun _ _ _ => Iff.rfl⟩

lemma freeSlot (hne : key ≠ k) : c.Agrees k (c.freeSlot key) :=
  ⟨rfl, (Table.get?_insert ..).trans (if_neg (Ne.symm hne)), fun _ _ _ => Iff.rfl⟩

/-- The view that is released with an entry is the view of another key. -/
lemma evict (hplaced : c.Placed) (hne : key ≠ k) : c.Agrees k (c.evict key).2 where
  entry := by rw [entry?_evict, if_neg (Ne.symm hne)]
  slot := by
    unfold Cache.evict
    split <;> rfl
  view := by
    intro id v hv
    cases he : c.entry? key with
    | none => rw [c.evict_of_none key he]
    | some i =>
      obtain ⟨w, hw, hpath⟩ := hplaced key i he
      rw [views_evict c key i he, List.getElem?_modify]
      by_cases hi : i = id
      · subst hi
        have hrelease : w.release ≠ v := by
          rintro rfl
          exact hne (hpath.symm.trans (by simpa using hv))
        have hsame : w ≠ v := by
          rintro rfl
          exact hne (hpath.symm.trans hv)
        simp [hw, hrelease, hsame]
      · simp [hi]

/-- What is stored anew for another key is no view of this one. -/
lemma store (hnone : c.entry? key = none) (hpath : v.path = key) (hne : key ≠ k) :
    c.Agrees k (c.store key v).2 where
  entry := by rw [entry?_store, if_neg (Ne.symm hne)]
  slot := by simp [Cache.store, keep, hnone]
  view := by
    intro id w hw
    rw [c.views_store key v hnone]
    have hvw : v ≠ w := by
      rintro rfl
      exact hne (hpath.symm.trans hw)
    rcases Nat.lt_trichotomy id c.views.length with hlt | rfl | hgt
    · rw [List.getElem?_append_left hlt]
    · simp [hvw]
    · rw [List.getElem?_eq_none (by simp; omega), List.getElem?_eq_none (by omega)]

end Agrees

/-- A move of a call on another key leaves all that the cache holds of a key as it is. -/
theorem Move.agrees (h : c.Move t who q s o) (hq : q.subject? ≠ some k) (hclear : q ≠ .clear)
    (hplaced : c.Placed) (hstoring : ∀ v key, s = .storing v → q.key? = some key →
      v.path = key ∧ c.entry? key = none) : c.Agrees k (o.cache c) := by
  have hne : ∀ {key}, q.key? = some key → key ≠ k := by
    rintro key hkey rfl
    exact hq (Request.subject?_of_key? hkey)
  cases h with
  | hit | hitLate | miss | unopened => simpa using Agrees.count _
  | ask hkey => exact Agrees.askSlot (hne hkey)
  | evict hkey =>
    have hkey := hne (Request.key?_of_invalidationKey? hkey)
    exact (Agrees.evict hplaced hkey).trans (Agrees.askSlot hkey)
  | forget hkey | evictLate hkey =>
    exact Agrees.evict hplaced (hne (Request.key?_of_invalidationKey? hkey))
  | take hkey => exact Agrees.takeSlot (hne hkey)
  | @fails _ key content | @makes _ key content =>
    simpa using (Agrees.make key content).trans (Agrees.count _)
  | @stores _ key v hkey =>
    obtain ⟨hpath, hnone⟩ := hstoring v key rfl hkey
    exact Agrees.store hnone hpath (hne hkey)
  | leaves hkey => simpa using Agrees.freeSlot (hne hkey)
  | clears => exact absurd rfl hclear
  | unknown | ignore | rebuilt | rebuild | absent | opens | renders | gets => exact Agrees.refl k c

@[simp] lemma slots_count (f : Counts → Counts) : (c.count f).slots = c.slots := rfl

@[simp] lemma slots_make (key : String) (content : Content) :
    (c.make key content).2.slots = c.slots := rfl

@[simp] lemma slots_evict (key : String) : (c.evict key).2.slots = c.slots := by
  unfold evict
  split <;> rfl

@[simp] lemma slots_store (key : String) (v : View) : (c.store key v).2.slots = c.slots := by
  cases h : c.entry? key <;> simp [store, keep, h, release]

@[simp] lemma slots_clear : c.clear.2.slots = c.slots := by
  have hreleaseAll : ∀ (ids : List Nat) (d : Cache), (ids.foldl release d).slots = d.slots := by
    intro ids
    induction ids with
    | nil => exact fun _ => rfl
    | cons id ids ih => exact fun d => ih (d.release id)
  exact hreleaseAll _ _

/-- A slot comes to the table when a call on its key asks for it. -/
theorem Move.slot_cases (h : c.Move t who q s o) (key : String) :
    (o.cache c).slots.get? key = c.slots.get? key ∨
      q.key? = some key ∧ (c.registry.contains key ∨ s.wants) := by
  have hcases : ∀ {key'}, q.key? = some key' → key' ≠ key ∨ q.key? = some key := by
    intro key' hq
    rw [hq]
    by_cases he : key' = key
    · exact .inr (congrArg some he)
    · exact .inl he
  cases h with
  | @ask _ key' hq _ hr =>
    rcases hcases hq with hne | hkey
    · exact .inl (Agrees.askSlot hne).slot
    · exact .inr ⟨hkey, .inl (Option.some.inj (hq.symm.trans hkey) ▸ hr)⟩
  | @evict _ key' _ hq _ hr =>
    have hq := Request.key?_of_invalidationKey? hq
    rcases hcases hq with hne | hkey
    · exact .inl ((Agrees.askSlot hne).slot.trans (by rw [slots_evict]))
    · exact .inr ⟨hkey, .inl (Option.some.inj (hq.symm.trans hkey) ▸ hr)⟩
  | take hq =>
    exact (hcases hq).imp (fun hne => (Agrees.takeSlot hne).slot) fun hkey => ⟨hkey, .inr rfl⟩
  | leaves hq =>
    exact (hcases hq).imp (fun hne => by simpa using (Agrees.freeSlot hne).slot)
      fun hkey => ⟨hkey, .inr rfl⟩
  | _ => exact .inl (by simp)

end Cache

namespace Run

variable {r : Run} {t : ℕ} {s : Stage} {who : Caller} {q : Request} {key k : String} {id : ℕ}
  {v : View}

/-- A view that is about to be stored was made for the key of the call. -/
lemma path_of_storing (hcall : (r.state t).call? who = some (q, .storing v))
    (hq : q.key? = some key) : v.path = key := by
  obtain ⟨b, hreach⟩ := exists_reaches (by simp) hcall
  obtain ⟨u, s, -, hsteps, hstage⟩ := hreach.exists_steps (by simp)
  obtain ⟨key', content, hq', -, hmade⟩ := hsteps.move.stage_eq_storing hstage
  obtain ⟨m, rfl⟩ := Workshop.eq_of_make hmade
  exact Option.some.inj (hq'.symm.trans hq)

/-- The view under a key has the path of the key. -/
theorem placed (r : Run) (t : ℕ) : (r.state t).cache.Placed := by
  intro key id he
  obtain ⟨who, q, b, u, v, hstores, -, hv, -⟩ := exists_view_of_entryAt he
  exact ⟨v, hv, path_of_storing hstores.1.1.call? hstores.2.1⟩

/-- The key of an entry is the canonical form of a path. -/
theorem canonical_of_entryAt (he : r.entryAt key t = some id) :
    Path.normalizeLogical key = key := by
  obtain ⟨who, q, b, u, v, hstores, -⟩ := exists_stores he
  exact Request.normalizeLogical_of_subject? (Request.subject?_of_key? hstores.2.1)

/-- The key of a slot is registered, and it is the canonical form of a path. -/
theorem known_of_slot (hslot : (r.state t).cache.slots.contains key) :
    (r.state t).cache.registry.contains key ∧ Path.normalizeLogical key = key := by
  induction t with
  | zero =>
    obtain ⟨files, registry, workshop, h⟩ := r.fresh
    rw [h] at hslot
    cases hslot
  | succ t ih =>
    rcases r.moves_or_rests t with ⟨w, q, s, o, ha, hmoves⟩ | ⟨-, hrests⟩
    · rw [hmoves.cache] at hslot ⊢
      rw [hmoves.move.registry_eq]
      rcases hmoves.move.slot_cases key with hsame | ⟨hq, hknown⟩
      · exact ih (by rwa [Table.contains, hsame] at hslot)
      · refine ⟨hknown.elim id fun hs => ?_,
          Request.normalizeLogical_of_subject? (Request.subject?_of_key? hq)⟩
        exact (r.coherent t).known w q s key hmoves.call hs hq
    · rw [hrests.cache] at hslot ⊢
      exact ih hslot

/-- A step of a call on another key leaves all that there is of a key as it is. -/
theorem agrees_succ (ha : r.action t = some (.advance who))
    (hcall : (r.state t).call? who = some (q, s)) (hq : q.subject? ≠ some k)
    (hclear : q ≠ .clear) : (r.state t).cache.Agrees k (r.state (t + 1)).cache := by
  have hmoves := moves_of_call? hcall ha
  rw [hmoves.cache]
  refine hmoves.move.agrees hq hclear (r.placed t) ?_
  rintro v key rfl hkey
  exact ⟨path_of_storing hcall hkey, (r.coherent t).absent who q _ key hcall rfl hkey⟩

end Run

end CompiledViews
