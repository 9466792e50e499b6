import CompiledViews.Table
import Mathlib.Data.List.Nodup
import Mathlib.Tactic.Common

/-! Keys and values of a table, told by what is found under a key. -/

namespace CompiledViews.Table

variable {α : Type}

theorem keys_ordered (t : Table α) : t.keys.Pairwise (· < ·) := List.pairwise_map.mpr t.ordered

theorem keys_nodup (t : Table α) : t.keys.Nodup := t.keys_ordered.imp String.ne_of_lt

theorem get?_eq_some_iff (t : Table α) (key : String) (value : α) :
    t.get? key = some value ↔ (key, value) ∈ t.rows := by
  constructor
  · intro h
    obtain ⟨row, hrow, rfl⟩ := Option.map_eq_some_iff.mp h
    have hkey : row.1 = key := by simpa using List.find?_some hrow
    subst hkey
    exact List.mem_of_find?_eq_some hrow
  · intro h
    obtain ⟨row, hrow⟩ : ∃ row, t.rows.find? (·.1 = key) = some row :=
      Option.isSome_iff_exists.mp (List.find?_isSome.mpr ⟨_, h, by simp⟩)
    have hkey : row.1 = key := by simpa using List.find?_some hrow
    have hsame := List.inj_on_of_nodup_map t.keys_nodup (List.mem_of_find?_eq_some hrow) h hkey
    simp [get?, lookup, hrow, hsame]

theorem mem_values_iff (t : Table α) (value : α) :
    value ∈ t.values ↔ ∃ key, t.get? key = some value := by
  simp [values, get?_eq_some_iff]

theorem mem_keys_iff (t : Table α) (key : String) :
    key ∈ t.keys ↔ ∃ value, t.get? key = some value := by
  simp [keys, get?_eq_some_iff]

lemma mem_keys_insert (t : Table α) (key : String) (value : α) (k : String) :
    k ∈ (t.insert key value).keys ↔ k = key ∨ k ∈ t.keys := by
  by_cases h : k = key <;> simp [mem_keys_iff, get?_insert, h]

lemma length_insertRow {key : String} (value : α) {rows : List (String × α)}
    (h : lookup rows key = none) : (insertRow key value rows).length = rows.length + 1 := by
  induction rows with
  | nil => rfl
  | cons row rows ih =>
    have hne : row.1 ≠ key := by
      rintro rfl
      simp [lookup] at h
    have hrest : lookup rows key = none := by simpa [lookup, hne] using h
    rw [insertRow]
    split
    · rfl
    case isFalse hge =>
      have hlt : row.1 < key := by
        by_contra hle
        exact hne (String.le_antisymm (String.not_lt.mp hge) (String.not_lt.mp hle))
      rw [if_pos hlt, List.length_cons, ih hrest, List.length_cons]

theorem size_insert {t : Table α} {key : String} (h : t.get? key = none) (value : α) :
    (t.insert key value).size = t.size + 1 := length_insertRow value h

theorem size_erase {t : Table α} {key : String} {value : α} (h : t.get? key = some value) :
    (t.erase key).size + 1 = t.size := by
  have hkeys : (t.erase key).keys = t.keys.erase key := by
    rw [t.keys_nodup.erase_eq_filter, keys, keys, erase, List.filter_map]
    exact congrArg _ (List.filter_congr fun row _ => by simp [bne, beq_eq_decide])
  have hmem : key ∈ t.keys := (t.mem_keys_iff key).mpr ⟨value, h⟩
  have hlength := List.length_erase_add_one hmem
  rwa [← hkeys, keys, keys, List.length_map, List.length_map] at hlength

/-- Rows after a row that is not below a key have other keys. -/
lemma filter_ne_eq_self {key : String} {row : String × α} {rows : List (String × α)}
    (h : Ordered (row :: rows)) (hle : key ≤ row.1) : rows.filter (·.1 ≠ key) = rows :=
  List.filter_eq_self.mpr fun r hr => decide_eq_true fun he =>
    String.not_lt.mpr (he ▸ hle) ((List.pairwise_cons.mp h).1 r hr)

/-- A row under a key stands beside the rows under other keys. -/
lemma rows_perm (key : String) {rows : List (String × α)} (h : Ordered rows) :
    rows.Perm ((lookup rows key).toList.map (key, ·) ++ rows.filter (·.1 ≠ key)) := by
  induction rows with
  | nil => exact .refl _
  | cons row rows ih =>
    by_cases hkey : row.1 = key
    · have hlookup : lookup (row :: rows) key = some row.2 := by simp [lookup, hkey]
      rw [hlookup, List.filter_cons_of_neg (by simpa using hkey),
        filter_ne_eq_self h (hkey ▸ String.le_refl _), ← hkey]
      exact .refl _
    · have hlookup : lookup (row :: rows) key = lookup rows key := by simp [lookup, hkey]
      rw [hlookup, List.filter_cons_of_pos (by simpa using hkey)]
      exact ((ih (List.pairwise_cons.mp h).2).cons row).trans List.perm_middle.symm

lemma insertRow_perm {key : String} (value : α) {rows : List (String × α)} (h : Ordered rows) :
    (insertRow key value rows).Perm ((key, value) :: rows.filter (·.1 ≠ key)) := by
  induction rows with
  | nil => exact .refl _
  | cons row rows ih =>
    rw [insertRow]
    split
    case isTrue hlt =>
      rw [List.filter_cons_of_pos (by simpa using (String.ne_of_lt hlt).symm),
        filter_ne_eq_self h (String.not_lt.mp (String.lt_asymm hlt))]
    case isFalse hge =>
      split
      case isTrue hgt =>
        rw [List.filter_cons_of_pos (by simpa using String.ne_of_lt hgt)]
        exact ((ih (List.pairwise_cons.mp h).2).cons row).trans (.swap ..)
      case isFalse hle =>
        have he : row.1 = key := String.le_antisymm (String.not_lt.mp hge) (String.not_lt.mp hle)
        rw [List.filter_cons_of_neg (by simpa using he),
          filter_ne_eq_self h (he ▸ String.le_refl _)]

/-- An insertion takes away what stood under the key, and adds a value. -/
theorem values_insert_perm (t : Table α) (key : String) (value : α) :
    ∃ rest, t.values.Perm ((t.get? key).toList ++ rest) ∧
      (t.insert key value).values.Perm (value :: rest) := by
  refine ⟨(t.erase key).values, ?_, (insertRow_perm value t.ordered).map _⟩
  have hperm := (rows_perm key t.ordered).map (·.2)
  have hvalues : ((lookup t.rows key).toList.map (key, ·)).map (·.2) = (t.get? key).toList := by
    rw [List.map_map]
    exact List.map_id _
  rwa [List.map_append, hvalues] at hperm

/-- The keys of a table of rows are those of the rows. -/
theorem mem_keys_ofRows (rows : List (String × α)) (key : String) :
    key ∈ (ofRows rows).keys ↔ key ∈ rows.map (·.1) := by
  suffices h : ∀ t : Table α, key ∈ (rows.foldl (fun t row => t.insert row.1 row.2) t).keys ↔
      key ∈ t.keys ∨ key ∈ rows.map (·.1) by
    exact (h {}).trans (by simp [mem_keys_iff])
  induction rows with
  | nil => simp
  | cons row rows ih =>
    intro t
    simp only [List.foldl_cons, ih, mem_keys_insert, List.map_cons, List.mem_cons]
    tauto

end CompiledViews.Table
