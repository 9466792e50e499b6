import CompiledViews.Watch.Watcher
import Mathlib.Data.List.Nodup
import Mathlib.Tactic.Common

/-! The listeners of a watcher, each with the file it listens to. A subscription adds one under a
new number, its end takes this one away, and an event reaches those of its file. -/

namespace CompiledViews.Watch.Watcher

variable {α : Type}

/-- The rows of a table of subscribers, one for each subscriber. -/
def flatten (rows : List (Key × List (Subscriber α))) : List (Key × Subscriber α) :=
  rows.flatMap fun row => row.2.map (row.1, ·)

/-- All subscribers, each with its file. -/
def listeners (w : Watcher α) : List (Key × Subscriber α) := flatten w.subscribers

/-- Each file with subscribers is listed once, and the numbers of the subscribers have been given
out once. -/
structure Tidy (w : Watcher α) : Prop where
  keys_nodup : (w.subscribers.map (·.1)).Nodup
  subscribed : ∀ row ∈ w.subscribers, row.2 ≠ []
  ids_nodup : (w.listeners.map (·.2.id)).Nodup
  id_lt : ∀ e ∈ w.listeners, e.2.id < w.nextId

section Rows

variable {rows : List (Key × List (Subscriber α))} {key : Key}

@[simp] lemma flatten_cons (row : Key × List (Subscriber α))
    (rows : List (Key × List (Subscriber α))) :
    flatten (row :: rows) = row.2.map (row.1, ·) ++ flatten rows := rfl

lemma mem_map_fst_of_mem_flatten {e : Key × Subscriber α} (h : e ∈ flatten rows) :
    e.1 ∈ rows.map (·.1) := by
  obtain ⟨row, hrow, he⟩ := List.mem_flatMap.mp h
  obtain ⟨s, -, rfl⟩ := List.mem_map.mp he
  exact List.mem_map_of_mem hrow

theorem flatten_addTo (key : Key) (s : Subscriber α) (rows : List (Key × List (Subscriber α))) :
    (flatten (addTo key s rows)).Perm ((key, s) :: flatten rows) := by
  induction rows with
  | nil => exact .refl _
  | cons row rows ih =>
    obtain ⟨k, ss⟩ := row
    rw [addTo]
    split
    case isTrue h =>
      subst h
      simp
    case isFalse =>
      rw [flatten_cons, flatten_cons]
      exact (ih.append_left _).trans List.perm_middle

lemma mem_keys_addTo (s : Subscriber α) (k : Key) :
    k ∈ (addTo key s rows).map (·.1) ↔ k = key ∨ k ∈ rows.map (·.1) := by
  induction rows with
  | nil => simp [addTo]
  | cons row rows ih =>
    rw [addTo]
    split
    case isTrue h =>
      subst h
      simp
    case isFalse =>
      rw [List.map_cons, List.mem_cons, ih, List.map_cons, List.mem_cons]
      tauto

lemma keys_addTo_nodup (h : (rows.map (·.1)).Nodup) (s : Subscriber α) :
    ((addTo key s rows).map (·.1)).Nodup := by
  induction rows with
  | nil => simp [addTo]
  | cons row rows ih =>
    rw [List.map_cons, List.nodup_cons] at h
    rw [addTo]
    split
    case isTrue => exact List.nodup_cons.mpr h
    case isFalse hne =>
      rw [List.map_cons, List.nodup_cons, mem_keys_addTo, not_or]
      exact ⟨⟨hne, h.1⟩, ih h.2⟩

lemma ne_nil_of_mem_addTo (h : ∀ row ∈ rows, row.2 ≠ []) (s : Subscriber α) :
    ∀ row ∈ addTo key s rows, row.2 ≠ [] := by
  induction rows with
  | nil => simp [addTo]
  | cons row rows ih =>
    rw [List.forall_mem_cons] at h
    rw [addTo]
    split
    case isTrue => exact List.forall_mem_cons.mpr ⟨by simp, h.2⟩
    case isFalse => exact List.forall_mem_cons.mpr ⟨h.1, ih h.2⟩

theorem flatten_removeFrom (h : (rows.map (·.1)).Nodup) (key : Key) (id : Nat) :
    flatten (removeFrom key id rows) =
      (flatten rows).filter fun e => ¬(e.1 = key ∧ e.2.id = id) := by
  induction rows with
  | nil => rfl
  | cons row rows ih =>
    obtain ⟨k, ss⟩ := row
    rw [List.map_cons, List.nodup_cons] at h
    rw [removeFrom, flatten_cons, List.filter_append, List.filter_map]
    split
    case isTrue hkey =>
      subst hkey
      have hrest : (flatten rows).filter (fun e => ¬(e.1 = k ∧ e.2.id = id)) = flatten rows := by
        refine List.filter_eq_self.mpr fun e he => ?_
        have hne : e.1 ≠ k := fun heq => h.1 (heq ▸ mem_map_fst_of_mem_flatten he)
        simp [hne]
      have hleft : ss.filter ((fun e : Key × Subscriber α => ¬(e.1 = k ∧ e.2.id = id)) ∘ (k, ·)) =
          ss.filter (·.id ≠ id) := by simp [Function.comp_def]
      rw [hrest, hleft]
      dsimp only
      split
      case isTrue hempty =>
        rw [List.isEmpty_iff.mp hempty]
        rfl
      case isFalse => rfl
    case isFalse hkey =>
      have hall : ss.filter ((fun e : Key × Subscriber α => ¬(e.1 = key ∧ e.2.id = id)) ∘ (k, ·)) =
          ss := by simp [Function.comp_def, hkey]
      rw [flatten_cons, ih h.2, hall]

lemma removeFrom_sublist (key : Key) (id : Nat) (rows : List (Key × List (Subscriber α))) :
    ((removeFrom key id rows).map (·.1)).Sublist (rows.map (·.1)) := by
  induction rows with
  | nil => exact .refl _
  | cons row rows ih =>
    rw [removeFrom]
    split
    case isTrue =>
      dsimp only
      split
      · exact List.sublist_cons_self _ _
      · exact .refl _
    case isFalse => exact ih.cons_cons _

lemma ne_nil_of_mem_removeFrom (h : ∀ row ∈ rows, row.2 ≠ []) (id : Nat) :
    ∀ row ∈ removeFrom key id rows, row.2 ≠ [] := by
  induction rows with
  | nil => simp [removeFrom]
  | cons row rows ih =>
    rw [List.forall_mem_cons] at h
    rw [removeFrom]
    split
    case isTrue =>
      dsimp only
      split
      case isTrue => exact h.2
      case isFalse hleft =>
        exact List.forall_mem_cons.mpr ⟨fun he => hleft (List.isEmpty_iff.mpr he), h.2⟩
    case isFalse => exact List.forall_mem_cons.mpr ⟨h.1, ih h.2⟩

lemma find?_rows (h : (rows.map (·.1)).Nodup) (key : Key) :
    ((rows.find? (·.1 = key)).map (·.2)).getD [] =
      ((flatten rows).filter (·.1 = key)).map (·.2) := by
  induction rows with
  | nil => rfl
  | cons row rows ih =>
    rw [List.map_cons, List.nodup_cons] at h
    rw [flatten_cons, List.filter_append, List.filter_map, List.map_append, ← ih h.2]
    by_cases hkey : row.1 = key
    · have hrest : rows.find? (·.1 = key) = none := by
        refine List.find?_eq_none.mpr fun row' hrow' hkey' => h.1 ?_
        rw [hkey, ← of_decide_eq_true hkey']
        exact List.mem_map_of_mem hrow'
      simp [hkey, hrest, Function.comp_def]
    · simp [hkey, Function.comp_def]

end Rows

namespace Tidy

variable {w : Watcher α}

lemma start (root : String) (canonical : Key) :
    ({ root := root, canonical := canonical } : Watcher α).Tidy := by
  constructor <;> simp [listeners, flatten]

theorem subscribersTo (h : w.Tidy) (key : Key) :
    w.subscribersTo key = (w.listeners.filter (·.1 = key)).map (·.2) :=
  find?_rows h.keys_nodup key

theorem watchedFiles_eq_zero_iff (h : w.Tidy) : w.watchedFiles = 0 ↔ w.listeners = [] := by
  rw [watchedFiles, List.length_eq_zero_iff]
  constructor
  · intro hempty
    rw [listeners, hempty]
    rfl
  · intro hempty
    cases hrows : w.subscribers with
    | nil => rfl
    | cons row rows =>
      rw [listeners, hrows, flatten_cons, List.append_eq_nil_iff, List.map_eq_nil_iff] at hempty
      exact absurd hempty.1 (h.subscribed row (hrows ▸ List.mem_cons_self))

/-- A subscription is numbered anew. -/
theorem subscribe (h : w.Tidy) {file logical : String} {listener : α} {key : Key} {id : Nat}
    {w' : Watcher α} (hsubscribe : w.subscribe file logical listener = some (key, id, w')) :
    w'.Tidy ∧ w.key? file = some key ∧ w'.root = w.root ∧ w'.canonical = w.canonical ∧
      id = w.nextId ∧ w'.listeners.Perm ((key, ⟨id, logical, listener⟩) :: w.listeners) := by
  obtain ⟨key', hkey, heq⟩ := Option.map_eq_some_iff.mp hsubscribe
  obtain ⟨rfl, rfl, rfl⟩ : key' = key ∧ w.nextId = id ∧ _ = w' := by simpa using heq
  have hperm := flatten_addTo key' ⟨w.nextId, logical, listener⟩ w.subscribers
  refine ⟨⟨keys_addTo_nodup h.keys_nodup _, ne_nil_of_mem_addTo h.subscribed _, ?_, ?_⟩, hkey, rfl,
    rfl, rfl, hperm⟩
  · refine (hperm.map (·.2.id)).nodup_iff.mpr (List.nodup_cons.mpr ⟨fun hmem => ?_, h.ids_nodup⟩)
    obtain ⟨e, he, hid⟩ := List.mem_map.mp hmem
    exact Nat.ne_of_lt (h.id_lt e he) hid
  · intro e he
    rcases List.mem_cons.mp (hperm.mem_iff.mp he) with rfl | he
    · exact Nat.lt_succ_self _
    · exact Nat.lt_succ_of_lt (h.id_lt e he)

theorem listeners_unsubscribe (h : w.Tidy) (key : Key) (id : Nat) :
    (w.unsubscribe key id).listeners = w.listeners.filter fun e => ¬(e.1 = key ∧ e.2.id = id) :=
  flatten_removeFrom h.keys_nodup key id

theorem unsubscribe (h : w.Tidy) (key : Key) (id : Nat) : (w.unsubscribe key id).Tidy where
  keys_nodup := h.keys_nodup.sublist (removeFrom_sublist key id _)
  subscribed := ne_nil_of_mem_removeFrom h.subscribed id
  ids_nodup := by
    rw [h.listeners_unsubscribe]
    exact h.ids_nodup.sublist (List.filter_sublist.map _)
  id_lt e he := h.id_lt e (List.mem_of_mem_filter (h.listeners_unsubscribe key id ▸ he))

end Tidy

end CompiledViews.Watch.Watcher
