import CompiledViews.Proofs.Watch.Watcher
import Mathlib.Data.List.Count
import Mathlib.Data.List.Dedup

/-! Whom a watcher tells what. However subscriptions begin and end, the table of a watcher is that
of its live subscriptions, and an event reaches those at the files of the event in the order in
which they began. -/

namespace CompiledViews.Watch.Watcher

variable {α : Type} {root : String} {canonical key : Key} {w w' : Watcher α}
  {armed front back : List (Key × Subscriber α)} {a : Key × Subscriber α}

/-- The use of a watcher of a directory, with the subscriptions that are live in the end. The oldest
stands first. Events leave the watcher as it is. -/
inductive Serves (root : String) (canonical : Key) :
    Watcher α → List (Key × Subscriber α) → Prop
  | start : Serves root canonical { root := root, canonical := canonical } []
  | subscribe {w w' : Watcher α} {armed : List (Key × Subscriber α)} {file logical : String}
      {listener : α} {key : Key} {id : Nat} (h : Serves root canonical w armed)
      (hsubscribe : w.subscribe file logical listener = some (key, id, w')) :
      Serves root canonical w' (armed ++ [(key, ⟨id, logical, listener⟩)])
  | unsubscribe {w : Watcher α} {front back : List (Key × Subscriber α)} {a : Key × Subscriber α}
      (h : Serves root canonical w (front ++ a :: back)) :
      Serves root canonical (w.unsubscribe a.1 a.2.id) (front ++ back)

/-- The listeners of each file are the live subscriptions on it, in the same order. -/
structure Routes (w : Watcher α) (armed : List (Key × Subscriber α)) : Prop where
  tidy : w.Tidy
  filter_listeners : ∀ key, w.listeners.filter (·.1 = key) = armed.filter (·.1 = key)

section Rows

variable {rows : List (Key × List (Subscriber α))} {ss : List (Subscriber α)}

lemma filter_flatten_eq_nil (h : key ∉ rows.map (·.1)) :
    (flatten rows).filter (·.1 = key) = [] := by
  apply List.filter_eq_nil_iff.mpr
  intro e he hkey
  exact h (of_decide_eq_true hkey ▸ mem_map_fst_of_mem_flatten he)

/-- A subscriber comes after those that a file has. -/
theorem filter_flatten_addTo (h : (rows.map (·.1)).Nodup) (s : Subscriber α) (file : Key) :
    (flatten (addTo key s rows)).filter (·.1 = file) =
      (flatten rows).filter (·.1 = file) ++ [(key, s)].filter (·.1 = file) := by
  induction rows with
  | nil => rfl
  | cons row rows ih =>
    obtain ⟨k, ss⟩ := row
    rw [List.map_cons, List.nodup_cons] at h
    rw [addTo]
    split
    case isTrue hkey =>
      subst hkey
      rw [flatten_cons, flatten_cons, List.map_append, List.map_singleton, List.filter_append,
        List.filter_append, List.filter_append]
      by_cases hfile : k = file
      · subst hfile
        rw [filter_flatten_eq_nil h.1, List.append_nil, List.append_nil]
      · simp [hfile]
    case isFalse =>
      rw [flatten_cons, flatten_cons, List.filter_append, List.filter_append, ih h.2,
        List.append_assoc]

lemma find?_eq_some_iff (h : (rows.map (·.1)).Nodup) {row : Key × List (Subscriber α)} :
    rows.find? (·.1 = key) = some row ↔ row ∈ rows ∧ row.1 = key := by
  constructor
  · intro hfind
    exact ⟨List.mem_of_find?_eq_some hfind, by simpa using List.find?_some hfind⟩
  · rintro ⟨hrow, hkey⟩
    cases hfind : rows.find? (·.1 = key) with
    | none =>
      have hno := List.find?_eq_none.mp hfind row hrow
      simp [hkey] at hno
    | some row' =>
      have hkey' : row'.1 = key := by simpa using List.find?_some hfind
      congr 1
      apply List.inj_on_of_nodup_map h (List.mem_of_find?_eq_some hfind) hrow
      exact hkey'.trans hkey.symm

/-- A file is listed with all that listen to it. -/
theorem mem_rows_iff (hkeys : (rows.map (·.1)).Nodup) (hrows : ∀ row ∈ rows, row.2 ≠ []) :
    (key, ss) ∈ rows ↔ ss ≠ [] ∧ ss = ((flatten rows).filter (·.1 = key)).map (·.2) := by
  rw [← find?_rows hkeys]
  constructor
  · intro hrow
    refine ⟨hrows _ hrow, ?_⟩
    rw [(find?_eq_some_iff hkeys).mpr ⟨hrow, rfl⟩]
    rfl
  · rintro ⟨hne, hss⟩
    cases hfind : rows.find? (·.1 = key) with
    | none =>
      rw [hfind] at hss
      exact absurd hss hne
    | some row =>
      obtain ⟨hrow, hkey⟩ := (find?_eq_some_iff hkeys).mp hfind
      rw [hfind] at hss
      have hsame : (key, ss) = row := Prod.ext hkey.symm hss
      exact hsame ▸ hrow

/-- A file is listed if somebody listens to it. -/
lemma mem_keys_iff (hrows : ∀ row ∈ rows, row.2 ≠ []) :
    key ∈ rows.map (·.1) ↔ key ∈ (flatten rows).map (·.1) := by
  constructor
  · intro hkey
    obtain ⟨row, hrow, rfl⟩ := List.mem_map.mp hkey
    obtain ⟨s, hs⟩ := List.exists_mem_of_ne_nil _ (hrows row hrow)
    apply List.mem_map.mpr
    exact ⟨(row.1, s), List.mem_flatMap.mpr ⟨row, hrow, List.mem_map_of_mem hs⟩, rfl⟩
  · intro hkey
    obtain ⟨e, he, rfl⟩ := List.mem_map.mp hkey
    exact mem_map_fst_of_mem_flatten he

end Rows

/-- Lists that agree on each file hold the same. -/
lemma perm_of_filter_eq {l m : List (Key × Subscriber α)}
    (h : ∀ key, l.filter (·.1 = key) = m.filter (·.1 = key)) : l.Perm m := by
  classical
  apply List.perm_iff_count.mpr
  intro e
  have hcount : ∀ es : List (Key × Subscriber α),
      (es.filter fun e' => decide (e'.1 = e.1)).count e = es.count e :=
    fun es => List.count_filter (decide_eq_true rfl)
  rw [← hcount l, h, hcount m]

/-- Of subscriptions with numbers of their own, the others are those with another number or file. -/
lemma filter_others (h : ((front ++ a :: back).map (·.2.id)).Nodup) :
    (front ++ a :: back).filter (fun e => ¬(e.1 = a.1 ∧ e.2.id = a.2.id)) = front ++ back := by
  rw [List.map_append, List.map_cons, List.nodup_middle, List.nodup_cons, ← List.map_append] at h
  have hothers : ∀ e ∈ front ++ back, ¬(e.1 = a.1 ∧ e.2.id = a.2.id) := by
    rintro e he ⟨-, hid⟩
    exact h.1 (hid ▸ List.mem_map_of_mem he)
  have hkept : (front ++ back).filter (fun e => ¬(e.1 = a.1 ∧ e.2.id = a.2.id)) =
      front ++ back := by
    apply List.filter_eq_self.mpr
    exact fun e he => decide_eq_true (hothers e he)
  rw [List.filter_append] at hkept
  rw [List.filter_append, List.filter_cons_of_neg (by simp), hkept]

namespace Routes

variable {file logical : String} {listener : α} {id : Nat}

lemma perm (h : w.Routes armed) : w.listeners.Perm armed := perm_of_filter_eq h.filter_listeners

lemma ids_nodup (h : w.Routes armed) : (armed.map (·.2.id)).Nodup :=
  (h.perm.map _).nodup_iff.mp h.tidy.ids_nodup

lemma start (root : String) (canonical : Key) :
    ({ root := root, canonical := canonical } : Watcher α).Routes [] :=
  ⟨.start root canonical, fun _ => rfl⟩

theorem subscribe (h : w.Routes armed)
    (hsubscribe : w.subscribe file logical listener = some (key, id, w')) :
    w'.Routes (armed ++ [(key, ⟨id, logical, listener⟩)]) := by
  refine ⟨(h.tidy.subscribe hsubscribe).1, fun k => ?_⟩
  obtain ⟨key', -, heq⟩ := Option.map_eq_some_iff.mp hsubscribe
  obtain ⟨rfl, rfl, rfl⟩ : key' = key ∧ w.nextId = id ∧ _ = w' := by simpa using heq
  rw [List.filter_append, ← h.filter_listeners k]
  exact filter_flatten_addTo h.tidy.keys_nodup _ k

/-- The end of a subscription takes nothing else away. -/
theorem unsubscribe (h : w.Routes (front ++ a :: back)) :
    (w.unsubscribe a.1 a.2.id).Routes (front ++ back) := by
  refine ⟨h.tidy.unsubscribe a.1 a.2.id, fun k => ?_⟩
  rw [h.tidy.listeners_unsubscribe, List.filter_comm, h.filter_listeners k, List.filter_comm,
    filter_others h.ids_nodup]

theorem subscribersTo (h : w.Routes armed) (key : Key) :
    w.subscribersTo key = (armed.filter (·.1 = key)).map (·.2) := by
  rw [h.tidy.subscribersTo, h.filter_listeners]

theorem mem_subscribers_iff (h : w.Routes armed) {ss : List (Subscriber α)} :
    (key, ss) ∈ w.subscribers ↔ ss ≠ [] ∧ ss = (armed.filter (·.1 = key)).map (·.2) := by
  rw [mem_rows_iff h.tidy.keys_nodup h.tidy.subscribed, ← h.filter_listeners, listeners]

theorem watchedFiles (h : w.Routes armed) :
    w.watchedFiles = (armed.map (·.1)).dedup.length := by
  have hperm : (w.subscribers.map (·.1)).Perm (armed.map (·.1)).dedup := by
    apply (List.perm_ext_iff_of_nodup h.tidy.keys_nodup (List.nodup_dedup _)).mpr
    intro key
    rw [mem_keys_iff h.tidy.subscribed, List.mem_dedup]
    exact (h.perm.map _).mem_iff
  rw [Watcher.watchedFiles, ← hperm.length_eq, List.length_map]

/-- A change is told to all at each of its files. -/
theorem dispatch (h : w.Routes armed) {e : Event} (hkind : e.kind.isChange = true) :
    w.dispatch e = e.paths.flatMap fun path =>
      (armed.filter (·.1 = path)).map fun a => (a.2.listener, a.2.logical) := by
  rw [Watcher.dispatch, if_pos hkind]
  apply List.flatMap_congr
  intro path _
  rw [h.subscribersTo, List.map_map]
  rfl

end Routes

theorem Serves.routes (h : Serves root canonical w armed) : w.Routes armed := by
  induction h with
  | start => exact .start _ _
  | subscribe _ hsubscribe ih => exact ih.subscribe hsubscribe
  | unsubscribe _ ih => exact ih.unsubscribe

/-- However subscriptions have begun and ended: the live ones have numbers of their own; the table
lists each file that has one, once, with just the subscribers of its live subscriptions; a change is
told to these, file by file and in the order in which they began, each under its own name; nothing
else is told; and a subscription that ends takes none but itself away. -/
theorem events_routed (h : Serves root canonical w armed) :
    (armed.map (·.2.id)).Nodup ∧
    (w.subscribers.map (·.1)).Nodup ∧
    (∀ key ss, (key, ss) ∈ w.subscribers ↔
      ss ≠ [] ∧ ss = (armed.filter (·.1 = key)).map (·.2)) ∧
    w.watchedFiles = (armed.map (·.1)).dedup.length ∧
    (∀ e : Event, e.kind = .created ∨ e.kind = .modified ∨ e.kind = .removed →
      w.dispatch e = e.paths.flatMap fun path =>
        (armed.filter (·.1 = path)).map fun a => (a.2.listener, a.2.logical)) ∧
    (∀ e : Event, e.kind = .metadata ∨ e.kind = .other → w.dispatch e = []) ∧
    ∀ front a back, armed = front ++ a :: back →
      (w.unsubscribe a.1 a.2.id).listeners.Perm (front ++ back) ∧
      ∀ key, (w.unsubscribe a.1 a.2.id).subscribersTo key =
        ((front ++ back).filter (·.1 = key)).map (·.2) := by
  have hroutes := h.routes
  refine ⟨hroutes.ids_nodup, hroutes.tidy.keys_nodup, fun _ _ => hroutes.mem_subscribers_iff,
    hroutes.watchedFiles, ?_, ?_, ?_⟩
  · rintro e (hkind | hkind | hkind) <;> exact hroutes.dispatch (by rw [hkind]; rfl)
  · rintro e (hkind | hkind) <;> rw [Watcher.dispatch, hkind] <;> rfl
  · rintro front a back rfl
    exact ⟨hroutes.unsubscribe.perm, hroutes.unsubscribe.subscribersTo⟩

/-- Of two subscriptions on a file the first ends, and the second still hears of the file as often
as an event names it. -/
theorem events_routed_shared_file :
    let base : Key := [.root, .name "w", .name "views"]
    let a : Key := base ++ [.name "a.hbs"]
    let b : Key := base ++ [.name "b.hbs"]
    let armed : List (Key × Subscriber Nat) := [(a, ⟨1, "/copy.hbs", 20⟩), (b, ⟨2, "/b.hbs", 30⟩)]
    ∃ w, Serves "views" base w armed ∧ w.watchedFiles = 2 ∧
      w.dispatch ⟨.modified, [a, b, a]⟩ = [(20, "/copy.hbs"), (30, "/b.hbs"), (20, "/copy.hbs")] ∧
      w.dispatch ⟨.metadata, [a]⟩ = [] := by
  intro base a b armed
  let old : Subscriber Nat := ⟨0, "/a.hbs", 10⟩
  let copy : Subscriber Nat := ⟨1, "/copy.hbs", 20⟩
  let other : Subscriber Nat := ⟨2, "/b.hbs", 30⟩
  let w : Watcher Nat := ⟨"views", base, [(a, [old, copy]), (b, [other])], 3⟩
  have hold : Watcher.subscribe ⟨"views", base, [], 0⟩ "views/a.hbs" "/a.hbs" 10 =
      some (a, 0, ⟨"views", base, [(a, [old])], 1⟩) := by decide +kernel
  have hcopy : Watcher.subscribe ⟨"views", base, [(a, [old])], 1⟩ "views/a.hbs" "/copy.hbs" 20 =
      some (a, 1, ⟨"views", base, [(a, [old, copy])], 2⟩) := by decide +kernel
  have hother : Watcher.subscribe ⟨"views", base, [(a, [old, copy])], 2⟩ "views/./b.hbs" "/b.hbs"
      30 = some (b, 2, w) := by decide +kernel
  have hall : Serves "views" base w ([] ++ (a, old) :: armed) :=
    ((Serves.start.subscribe hold).subscribe hcopy).subscribe hother
  have hserves : Serves "views" base (w.unsubscribe a 0) armed := hall.unsubscribe
  obtain ⟨-, -, -, hfiles, hchange, hno, -⟩ := events_routed hserves
  refine ⟨_, hserves, hfiles.trans (by decide), ?_, hno _ (.inl rfl)⟩
  exact (hchange ⟨.modified, [a, b, a]⟩ (.inr (.inl rfl))).trans (by decide)

end CompiledViews.Watch.Watcher
