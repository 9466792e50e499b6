/-! Tables: values under texts, kept in the order of the texts. -/

namespace CompiledViews

namespace Table

/-- Puts a value in its place, instead of one under the same key. -/
def insertRow {α : Type} (key : String) (value : α) : List (String × α) → List (String × α)
  | [] => [(key, value)]
  | row :: rows =>
    if key < row.1 then (key, value) :: row :: rows
    else if row.1 < key then row :: insertRow key value rows
    else (key, value) :: rows

def lookup {α : Type} (rows : List (String × α)) (key : String) : Option α :=
  (rows.find? (·.1 = key)).map (·.2)

/-- The rows go up strictly. -/
def Ordered {α : Type} (rows : List (String × α)) : Prop := rows.Pairwise (·.1 < ·.1)

theorem mem_insertRow {α : Type} {key : String} {value : α} {rows : List (String × α)}
    {r : String × α} (h : r ∈ insertRow key value rows) : r = (key, value) ∨ r ∈ rows := by
  induction rows with
  | nil => simpa [insertRow] using h
  | cons row rows ih =>
    rw [insertRow] at h
    split at h
    · simpa using h
    · split at h
      · rcases List.mem_cons.mp h with h | h
        · simp [h]
        · rcases ih h with h | h <;> simp [h]
      · rcases List.mem_cons.mp h with h | h <;> simp [h]

theorem Ordered.insertRow {α : Type} {rows : List (String × α)} (h : Ordered rows) (key : String)
    (value : α) : Ordered (insertRow key value rows) := by
  induction rows with
  | nil => simp [Table.insertRow, Ordered]
  | cons row rows ih =>
    have hr := List.pairwise_cons.mp h
    rw [Table.insertRow]
    split
    case isTrue hlt =>
      refine List.pairwise_cons.mpr ⟨fun r hm => ?_, h⟩
      rcases List.mem_cons.mp hm with rfl | hm
      · exact hlt
      · exact String.lt_trans hlt (hr.1 r hm)
    case isFalse hge =>
      split
      case isTrue hgt =>
        refine List.pairwise_cons.mpr ⟨fun r hm => ?_, ih hr.2⟩
        rcases mem_insertRow hm with rfl | hm
        · exact hgt
        · exact hr.1 r hm
      case isFalse hle =>
        have he : key = row.1 :=
          String.le_antisymm (String.not_lt.mp hle) (String.not_lt.mp hge)
        exact List.pairwise_cons.mpr ⟨fun r hm => he ▸ hr.1 r hm, hr.2⟩

theorem lookup_insertRow {α : Type} (rows : List (String × α)) (key : String) (value : α)
    (k : String) : lookup (insertRow key value rows) k =
      if k = key then some value else lookup rows k := by
  induction rows with
  | nil => by_cases h : k = key <;> simp [insertRow, lookup, h, eq_comm]
  | cons row rows ih =>
    rw [insertRow]
    split
    · by_cases h : k = key <;> simp [lookup, h, eq_comm]
    case isFalse hge =>
      split
      case isTrue hgt =>
        have hne : row.1 ≠ key := fun h => String.lt_irrefl _ (h ▸ hgt)
        by_cases hk : row.1 = k
        · have : k ≠ key := hk ▸ hne
          simp [lookup, hk, this]
        · simpa [lookup, hk] using ih
      case isFalse hle =>
        have he : key = row.1 :=
          String.le_antisymm (String.not_lt.mp hle) (String.not_lt.mp hge)
        by_cases h : k = key
        · simp [lookup, h]
        · have : row.1 ≠ k := fun e => h (by rw [he, e])
          simp [lookup, h, this, Ne.symm h]

end Table

structure Table (α : Type) where
  rows : List (String × α)
  ordered : Table.Ordered rows

namespace Table

variable {α : Type}

instance [Repr α] : Repr (Table α) := ⟨fun t => reprPrec t.rows⟩

instance [DecidableEq α] : DecidableEq (Table α) := fun a b =>
  decidable_of_iff (a.rows = b.rows) ⟨fun h => by cases a; cases b; cases h; rfl, fun h => h ▸ rfl⟩

instance : EmptyCollection (Table α) := ⟨⟨[], List.Pairwise.nil⟩⟩

instance : Inhabited (Table α) := ⟨{}⟩

def get? (t : Table α) (key : String) : Option α := lookup t.rows key

def contains (t : Table α) (key : String) : Bool := (t.get? key).isSome

def insert (t : Table α) (key : String) (value : α) : Table α :=
  ⟨insertRow key value t.rows, t.ordered.insertRow key value⟩

def erase (t : Table α) (key : String) : Table α :=
  ⟨t.rows.filter (·.1 ≠ key), t.ordered.filter _⟩

def keys (t : Table α) : List String := t.rows.map (·.1)

def values (t : Table α) : List α := t.rows.map (·.2)

def size (t : Table α) : Nat := t.rows.length

/-- The table of rows in any order. Of rows under one key the last one counts. -/
def ofRows (rows : List (String × α)) : Table α :=
  rows.foldl (fun t row => t.insert row.1 row.2) {}

@[simp] theorem get?_empty (k : String) : ({} : Table α).get? k = none := rfl

theorem get?_insert (t : Table α) (key : String) (value : α) (k : String) :
    (t.insert key value).get? k = if k = key then some value else t.get? k :=
  lookup_insertRow t.rows key value k

@[simp] theorem get?_insert_self (t : Table α) (key : String) (value : α) :
    (t.insert key value).get? key = some value := by simp [get?_insert]

theorem get?_erase (t : Table α) (key k : String) :
    (t.erase key).get? k = if k = key then none else t.get? k := by
  unfold get? lookup erase
  rw [List.find?_filter]
  split
  case isTrue h =>
    subst h
    rw [List.find?_eq_none.mpr (by simp), Option.map_none]
  case isFalse h =>
    congr 2
    funext row
    by_cases hr : row.1 = k <;> simp [hr, h]

@[simp] theorem get?_erase_self (t : Table α) (key : String) : (t.erase key).get? key = none := by
  simp [get?_erase]

end Table

end CompiledViews
