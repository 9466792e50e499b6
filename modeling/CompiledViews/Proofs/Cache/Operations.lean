import CompiledViews.Cache.Call
import CompiledViews.Proofs.Table

/-! What each operation on a cache does to its entries, to the holders of its slots, to its views
and to its registry. -/

namespace CompiledViews

/-- A second release does nothing, so it does not matter how often a view is listed. -/
@[simp] theorem View.release_release (v : View) : v.release.release = v.release := by
  conv_lhs => rw [View.release]
  simp

namespace Cache

variable (c : Cache) (key k : String) (who : Caller) (id : Nat) (f : Counts → Counts)
  (content : Content)

/-! Counting changes the counts alone. -/

@[simp] theorem entry?_count : entry? (c.count f) k = c.entry? k := rfl
@[simp] theorem holder?_count : (c.count f).holder? k = c.holder? k := rfl
@[simp] theorem views_count : (c.count f).views = c.views := rfl
@[simp] theorem registry_count : (c.count f).registry = c.registry := rfl
@[simp] theorem size_count : (c.count f).size = c.size := rfl
@[simp] theorem workshop_count : (c.count f).workshop = c.workshop := rfl
@[simp] theorem counts_count : (c.count f).counts = f c.counts := rfl

/-! Making a view changes the workshop alone. -/

@[simp] theorem entry?_make : entry? (c.make key content).2 k = c.entry? k := rfl
@[simp] theorem holder?_make : (c.make key content).2.holder? k = c.holder? k := rfl
@[simp] theorem views_make : (c.make key content).2.views = c.views := rfl
@[simp] theorem registry_make : (c.make key content).2.registry = c.registry := rfl
@[simp] theorem size_make : (c.make key content).2.size = c.size := rfl
@[simp] theorem counts_make : (c.make key content).2.counts = c.counts := rfl

/-- The workshop counts every template that it begins, whatever becomes of it. -/
theorem begun_make : (c.make key content).2.workshop.begun = c.workshop.begun + 1 := by
  simp only [make, Workshop.make]
  split
  · rfl
  · rfl
  · split
    · rfl
    · split <;> rfl

/-! A slot that is asked for the first time is nobody's yet. -/

theorem holder?_askSlot : (c.askSlot key).holder? k = c.holder? k := by
  unfold askSlot
  split
  · rfl
  case isFalse h =>
    have hnone : c.slots.get? key = none := by simpa [Table.contains] using h
    by_cases hk : k = key <;> simp [holder?, Table.get?_insert, hk, hnone]

@[simp] theorem entry?_askSlot : entry? (c.askSlot key) k = c.entry? k := by
  unfold askSlot; split <;> rfl

@[simp] theorem views_askSlot : (c.askSlot key).views = c.views := by
  unfold askSlot; split <;> rfl

@[simp] theorem registry_askSlot : (c.askSlot key).registry = c.registry := by
  unfold askSlot; split <;> rfl

@[simp] theorem counts_askSlot : (c.askSlot key).counts = c.counts := by
  unfold askSlot; split <;> rfl

@[simp] theorem workshop_askSlot : (c.askSlot key).workshop = c.workshop := by
  unfold askSlot; split <;> rfl

@[simp] theorem size_askSlot : (c.askSlot key).size = c.size := by
  unfold askSlot; split <;> rfl

/-! Taking a slot and giving it back. -/

theorem holder?_takeSlot :
    (c.takeSlot key who).holder? k = if k = key then some who else c.holder? k := by
  by_cases h : k = key <;> simp [holder?, takeSlot, Table.get?_insert, h]

@[simp] theorem entry?_takeSlot : entry? (c.takeSlot key who) k = c.entry? k := rfl
@[simp] theorem views_takeSlot : (c.takeSlot key who).views = c.views := rfl
@[simp] theorem registry_takeSlot : (c.takeSlot key who).registry = c.registry := rfl
@[simp] theorem size_takeSlot : (c.takeSlot key who).size = c.size := rfl
@[simp] theorem counts_takeSlot : (c.takeSlot key who).counts = c.counts := rfl
@[simp] theorem workshop_takeSlot : (c.takeSlot key who).workshop = c.workshop := rfl

theorem holder?_freeSlot : (c.freeSlot key).holder? k = if k = key then none else c.holder? k := by
  by_cases h : k = key <;> simp [holder?, freeSlot, Table.get?_insert, h]

@[simp] theorem entry?_freeSlot : entry? (c.freeSlot key) k = c.entry? k := rfl
@[simp] theorem views_freeSlot : (c.freeSlot key).views = c.views := rfl
@[simp] theorem registry_freeSlot : (c.freeSlot key).registry = c.registry := rfl
@[simp] theorem size_freeSlot : (c.freeSlot key).size = c.size := rfl
@[simp] theorem counts_freeSlot : (c.freeSlot key).counts = c.counts := rfl
@[simp] theorem workshop_freeSlot : (c.freeSlot key).workshop = c.workshop := rfl

/-! Taking an entry out. -/

theorem evict_of_none (h : c.entry? key = none) : c.evict key = (none, c) := by
  simp [evict, h]

theorem evict_of_some (h : c.entry? key = some id) : (c.evict key).1 = some id := by
  simp [evict, h]

theorem entry?_evict :
    entry? (c.evict key).2 k = if k = key then none else c.entry? k := by
  cases h : c.entry? key with
  | none => by_cases hk : k = key <;> simp [evict_of_none c key h, hk, h]
  | some id => simp only [evict, h]; exact Table.get?_erase c.entries key k

theorem views_evict (h : c.entry? key = some id) :
    (c.evict key).2.views = c.views.modify id View.release := by
  simp [evict, h, release]

@[simp] theorem holder?_evict : (c.evict key).2.holder? k = c.holder? k := by
  unfold evict; split <;> rfl

@[simp] theorem registry_evict : (c.evict key).2.registry = c.registry := by
  unfold evict; split <;> rfl

@[simp] theorem workshop_evict : (c.evict key).2.workshop = c.workshop := by
  unfold evict; split <;> rfl

theorem counts_evict (h : c.entry? key = some id) :
    (c.evict key).2.counts = { c.counts with evictions := c.counts.evictions + 1 } := by
  simp [evict, h, release]

theorem size_evict (h : c.entry? key = some id) : (c.evict key).2.size + 1 = c.size := by
  have hentries : (c.evict key).2.entries = c.entries.erase key := by simp only [evict, h]; rfl
  rw [size, size, hentries, Table.size_erase h]

/-! Storing a view where there is no entry. -/

theorem store_fst (v : View) : (c.store key v).1 = c.views.length := by
  cases h : c.entry? key <;> simp [store, keep, h]

theorem views_store (v : View) (h : c.entry? key = none) :
    (c.store key v).2.views = c.views ++ [v] := by
  simp [store, keep, h]

theorem entry?_store (v : View) :
    entry? (c.store key v).2 k = if k = key then some c.views.length else c.entry? k := by
  have hinsert := Table.get?_insert c.entries key c.views.length k
  cases h : c.entry? key <;> (simp only [store, keep, h]; exact hinsert)

@[simp] theorem holder?_store (v : View) : (c.store key v).2.holder? k = c.holder? k := by
  cases h : c.entry? key <;> simp [store, keep, h, release, holder?]

@[simp] theorem registry_store (v : View) : (c.store key v).2.registry = c.registry := by
  cases h : c.entry? key <;> simp [store, keep, h, release]

@[simp] theorem counts_store (v : View) : (c.store key v).2.counts = c.counts := by
  cases h : c.entry? key <;> simp [store, keep, h, release]

@[simp] theorem workshop_store (v : View) : (c.store key v).2.workshop = c.workshop := by
  cases h : c.entry? key <;> simp [store, keep, h, release]

theorem size_store (v : View) (h : c.entry? key = none) :
    (c.store key v).2.size = c.size + 1 := by
  have hsize : (c.entries.insert key c.views.length).size = c.entries.size + 1 :=
    Table.size_insert h _
  simpa [store, keep, h, size] using hsize

/-! Releasing many views at once, which touches the views alone. -/

theorem entry?_releaseAll (ids : List Nat) : entry? (ids.foldl release c) k = c.entry? k := by
  induction ids generalizing c with
  | nil => rfl
  | cons i ids ih => exact ih (c.release i)

theorem holder?_releaseAll (ids : List Nat) : (ids.foldl release c).holder? k = c.holder? k := by
  induction ids generalizing c with
  | nil => rfl
  | cons i ids ih => exact ih (c.release i)

theorem registry_releaseAll (ids : List Nat) : (ids.foldl release c).registry = c.registry := by
  induction ids generalizing c with
  | nil => rfl
  | cons i ids ih => exact ih (c.release i)

theorem size_releaseAll (ids : List Nat) : (ids.foldl release c).size = c.size := by
  induction ids generalizing c with
  | nil => rfl
  | cons i ids ih => exact ih (c.release i)

theorem counts_releaseAll (ids : List Nat) : (ids.foldl release c).counts = c.counts := by
  induction ids generalizing c with
  | nil => rfl
  | cons i ids ih => exact ih (c.release i)

theorem workshop_releaseAll (ids : List Nat) : (ids.foldl release c).workshop = c.workshop := by
  induction ids generalizing c with
  | nil => rfl
  | cons i ids ih => exact ih (c.release i)

theorem length_views_releaseAll (ids : List Nat) :
    (ids.foldl release c).views.length = c.views.length := by
  induction ids generalizing c with
  | nil => rfl
  | cons i ids ih => exact (ih (c.release i)).trans (List.length_modify ..)

theorem getElem?_releaseAll (ids : List Nat) : (ids.foldl release c).views[id]? =
    (c.views[id]?).map fun v => if id ∈ ids then v.release else v := by
  induction ids generalizing c with
  | nil => simp
  | cons i ids ih =>
    rw [List.foldl_cons, ih, release, List.getElem?_modify]
    cases c.views[id]? with
    | none => simp
    | some v => by_cases hi : i = id <;> by_cases hm : id ∈ ids <;> simp [hi, hm, @eq_comm _ id]

theorem mem_values_iff : id ∈ c.entries.values ↔ ∃ k, c.entry? k = some id :=
  Table.mem_values_iff c.entries id

/-! Taking all entries out. -/

@[simp] theorem entry?_clear : entry? c.clear.2 k = none := entry?_releaseAll _ k _

@[simp] theorem holder?_clear : c.clear.2.holder? k = c.holder? k := holder?_releaseAll _ k _

@[simp] theorem registry_clear : c.clear.2.registry = c.registry := registry_releaseAll _ _

@[simp] theorem size_clear : c.clear.2.size = 0 := size_releaseAll _ _

@[simp] theorem counts_clear :
    c.clear.2.counts = { c.counts with evictions := c.counts.evictions + c.size } :=
  congrArg (fun n : Counts => { n with evictions := n.evictions + c.size }) (counts_releaseAll _ _)

@[simp] theorem length_views_clear : c.clear.2.views.length = c.views.length :=
  length_views_releaseAll _ _

@[simp] theorem workshop_clear : c.clear.2.workshop = c.workshop := workshop_releaseAll _ _

theorem getElem?_clear : c.clear.2.views[id]? =
    (c.views[id]?).map fun v => if id ∈ c.entries.values then v.release else v :=
  getElem?_releaseAll _ id _

/-! A cache goes away. -/

@[simp] theorem entry?_drop : c.drop.entry? k = none := entry?_releaseAll _ k _

theorem getElem?_drop : c.drop.views[id]? =
    (c.views[id]?).map fun v => if id ∈ c.entries.values then v.release else v :=
  getElem?_releaseAll _ id _

end Cache

end CompiledViews
