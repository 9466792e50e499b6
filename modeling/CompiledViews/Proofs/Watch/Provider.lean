import CompiledViews.Proofs.Watch.Pool
import CompiledViews.Watch.Provider

/-! What calls leave in memory. A call to watch a file joins a watcher or begins one; one that fails
gives back all references that it has taken. -/

namespace CompiledViews.Watch

variable {α : Type} {t : FileTree} {root file logical : String} {listener : α}
  {s : Subscription} {n place : Nat}

namespace Provider

variable {p p' : Provider α} {c : Cell α} {w : Watcher α}

section Places

@[simp] lemma memory_prune (p : Provider α) : p.prune.memory = p.memory := rfl

@[simp] lemma put_put (p : Provider α) (n : Nat) (c c' : Option (Cell α)) :
    (p.put n c).put n c' = p.put n c' := by
  ext1
  · funext m
    by_cases hm : m = n <;> simp [hm]
  · rfl

lemma put_self {c : Option (Cell α)} (h : p.memory n = c) : p.put n c = p := by
  ext1
  · funext m
    by_cases hm : m = n
    · subst hm
      simp [h]
    · simp [hm]
  · rfl

@[simp] lemma retain_put (p : Provider α) (n : Nat) (c : Cell α) :
    (p.put n (some c)).retain n = p.put n (some ⟨c.references + 1, c.watcher⟩) := by
  simp [retain]

@[simp] lemma modify_put (p : Provider α) (n : Nat) (c : Cell α) (f : Watcher α → Watcher α) :
    (p.put n (some c)).modify n f = p.put n (some ⟨c.references, f c.watcher⟩) := by
  simp [modify]

lemma release_put (p : Provider α) (n : Nat) (c : Cell α) :
    (p.put n (some c)).release n =
      p.put n (if c.references ≤ 1 then none else some ⟨c.references - 1, c.watcher⟩) := by
  simp [release]

lemma release_put_succ (p : Provider α) (n r : Nat) (hr : 0 < r) (w : Watcher α) :
    (p.put n (some ⟨r + 1, w⟩)).release n = p.put n (some ⟨r, w⟩) := by
  rw [release_put, if_neg (by simpa using Nat.ne_of_gt hr)]
  rfl

end Places

/-- A reference that is taken and given back leaves everything as it was. -/
lemma release_retain (hcell : p.memory n = some c) (hpos : 0 < c.references) :
    (p.retain n).release n = p := by
  rw [retain, hcell, Option.map_some, release_put_succ _ _ _ hpos]
  exact put_self hcell

section Search

/-- Whether there is a watcher at a place that covers a file. -/
def coversAt (p : Provider α) (file : String) (n : Nat) : Bool :=
  (p.memory n).any (·.watcher.covers file)

lemma exists_cell_of_find? {ns : List Nat} (hfind : ns.find? (p.coversAt file) = some n) :
    ∃ c, p.memory n = some c ∧ c.watcher.covers file = true := by
  have hcovers : p.coversAt file n = true := List.find?_some hfind
  exact (Option.any_eq_true _ _).mp hcovers

lemma coversAt_of_cell (hcell : p.memory n = some c) (file : String) :
    p.coversAt file n = c.watcher.covers file := by
  rw [coversAt, hcell]
  rfl

/-- The first watcher that covers the file is kept, and nothing else has changed. -/
theorem search_eq (hpos : ∀ n c, p.memory n = some c → 0 < c.references) (file : String)
    (ns : List Nat) : search file ns p = match ns.find? (p.coversAt file) with
      | some n => (some n, p.retain n)
      | none => (none, p) := by
  induction ns with
  | nil => rfl
  | cons n ns ih =>
    rw [search]
    split
    case h_1 hnone =>
      rw [ih, List.find?_cons_of_neg (by simp [coversAt, hnone])]
    case h_2 c hcell =>
      split
      case isTrue hcovers =>
        rw [List.find?_cons_of_pos (by rw [coversAt_of_cell hcell, hcovers])]
      case isFalse hcovers =>
        rw [release_retain hcell (hpos n c hcell), ih,
          List.find?_cons_of_neg (by rwa [coversAt_of_cell hcell])]

lemma key?_eq_none_iff : w.key? file = none ↔ w.covers file = false := by
  rw [Watcher.covers, Option.isSome_eq_false_iff, Option.isNone_iff_eq_none]

lemma subscribe_eq_none_iff : w.subscribe file logical listener = none ↔ w.covers file = false := by
  rw [Watcher.subscribe, Option.map_eq_none_iff, key?_eq_none_iff]

lemma exists_subscribe (h : w.covers file = true) (logical : String) (listener : α) :
    ∃ key id w', w.subscribe file logical listener = some (key, id, w') := by
  cases hsubscribe : w.subscribe file logical listener with
  | none => simp [subscribe_eq_none_iff.mp hsubscribe] at h
  | some r => exact ⟨r.1, r.2.1, r.2.2, rfl⟩

end Search

/-- What a call to watch a file can come to, and what it leaves in memory. -/
inductive Watches (p : Provider α) (place : Nat) (t : FileTree)
    (root file logical : String) (listener : α) :
    Except WatchError Subscription → Provider α → Prop
  | joined {n : Nat} {c : Cell α} {key : Key} {id : Nat} {w : Watcher α}
      (hfind : p.prune.known.find? (p.coversAt file) = some n) (hcell : p.memory n = some c)
      (hsubscribe : c.watcher.subscribe file logical listener = some (key, id, w)) :
      Watches p place t root file logical listener (.ok ⟨n, id, key⟩)
        (p.prune.put n (some ⟨c.references + 1, w⟩))
  | begun {w w' : Watcher α} {key : Key} {id : Nat}
      (hfind : p.prune.known.find? (p.coversAt file) = none)
      (hstart : Watcher.start t root = .ok w)
      (hsubscribe : w.subscribe file logical listener = some (key, id, w')) :
      Watches p place t root file logical listener (.ok ⟨place, id, key⟩)
        (p.prune.start place w')
  | unwatchable {e : SystemError} (hfind : p.prune.known.find? (p.coversAt file) = none)
      (hstart : Watcher.start (α := α) t root = .error e) :
      Watches p place t root file logical listener (.error (.unwatchable root e)) p.prune
  | outside {w : Watcher α} (hfind : p.prune.known.find? (p.coversAt file) = none)
      (hstart : Watcher.start t root = .ok w)
      (houtside : w.subscribe file logical listener = none) :
      Watches p place t root file logical listener (.error (.outsideRoot file root))
        { p.prune with known := p.prune.known ++ [place] }

section Calls

variable {key : Key} {id : Nat} {w' : Watcher α}

lemma watch_joined (hpos : ∀ n c, p.memory n = some c → 0 < c.references)
    (hfind : p.prune.known.find? (p.coversAt file) = some n) (hcell : p.memory n = some c)
    (hsubscribe : c.watcher.subscribe file logical listener = some (key, id, w)) :
    p.watch place t root file logical listener =
      (.ok ⟨n, id, key⟩, p.prune.put n (some ⟨c.references + 1, w⟩)) := by
  have hsearch := search_eq (p := p.prune) hpos file p.prune.known
  rw [show p.prune.known.find? (p.prune.coversAt file) = some n from hfind] at hsearch
  simp only [watch, watcherFor, hsearch, retain, memory_prune, hcell, Option.map_some,
    memory_put, if_true, Option.bind_some, hsubscribe, modify_put, put_put]
  rw [release_put_succ _ _ _ (Nat.succ_pos _)]

lemma search_eq_none (hpos : ∀ n c, p.memory n = some c → 0 < c.references)
    (hfind : p.prune.known.find? (p.coversAt file) = none) :
    search file p.prune.known p.prune = (none, p.prune) := by
  have hsearch := search_eq (p := p.prune) hpos file p.prune.known
  rwa [show p.prune.known.find? (p.prune.coversAt file) = none from hfind] at hsearch

lemma watch_begun (hpos : ∀ n c, p.memory n = some c → 0 < c.references)
    (hfind : p.prune.known.find? (p.coversAt file) = none)
    (hstart : Watcher.start t root = .ok w)
    (hsubscribe : w.subscribe file logical listener = some (key, id, w')) :
    p.watch place t root file logical listener =
      (.ok ⟨place, id, key⟩, p.prune.start place w') := by
  simp only [watch, watcherFor, search_eq_none hpos hfind, hstart, start, memory_put, if_true,
    Option.bind_some, hsubscribe, modify_put, retain_put]
  rw [release_put_succ _ _ _ Nat.one_pos]

lemma watch_unwatchable {e : SystemError} (hpos : ∀ n c, p.memory n = some c → 0 < c.references)
    (hfind : p.prune.known.find? (p.coversAt file) = none)
    (hstart : Watcher.start (α := α) t root = .error e) :
    p.watch place t root file logical listener = (.error (.unwatchable root e), p.prune) := by
  simp only [watch, watcherFor, search_eq_none hpos hfind, hstart]

/-- A watcher that is started for a file outside of its directory ends with the call. -/
lemma watch_outside (hpos : ∀ n c, p.memory n = some c → 0 < c.references)
    (hfree : p.memory place = none) (hfind : p.prune.known.find? (p.coversAt file) = none)
    (hstart : Watcher.start t root = .ok w)
    (houtside : w.subscribe file logical listener = none) :
    p.watch place t root file logical listener = (.error (.outsideRoot file root),
      { p.prune with known := p.prune.known ++ [place] }) := by
  simp only [watch, watcherFor, search_eq_none hpos hfind, hstart, start, memory_put, if_true,
    Option.bind_some, houtside, release_put, Nat.le_refl]
  rw [put_self (by simpa using hfree)]

theorem watches (hpos : ∀ n c, p.memory n = some c → 0 < c.references)
    (hfree : p.memory place = none) (t : FileTree) (root file logical : String)
    (listener : α) : p.Watches place t root file logical listener
      (p.watch place t root file logical listener).1
      (p.watch place t root file logical listener).2 := by
  cases hfind : p.prune.known.find? (p.coversAt file) with
  | some n =>
    obtain ⟨c, hcell, hcovers⟩ := exists_cell_of_find? hfind
    obtain ⟨key, id, w, hsubscribe⟩ := exists_subscribe hcovers logical listener
    rw [watch_joined hpos hfind hcell hsubscribe]
    exact .joined hfind hcell hsubscribe
  | none =>
    cases hstart : Watcher.start (α := α) t root with
    | error e =>
      rw [watch_unwatchable hpos hfind hstart]
      exact .unwatchable hfind hstart
    | ok w =>
      cases hsubscribe : w.subscribe file logical listener with
      | none =>
        rw [watch_outside hpos hfree hfind hstart hsubscribe]
        exact .outside hfind hstart hsubscribe
      | some r =>
        rw [watch_begun hpos hfind hstart hsubscribe]
        exact .begun hfind hstart hsubscribe

end Calls

section Live

@[simp] lemma live_prune (p : Provider α) : p.prune.live = p.live := by
  rw [live, live, prune, List.filterMap_filter]
  apply List.filterMap_congr
  intro n _
  cases p.memory n <;> simp

lemma map_fst_live (p : Provider α) : p.live.map (·.1) = p.prune.known := by
  rw [live, List.map_filterMap, prune, ← List.filterMap_eq_filter]
  apply List.filterMap_congr
  intro n _
  cases hcell : p.memory n <;> simp [hcell, Option.guard]

lemma mem_live_iff {e : Nat × Watcher α} :
    e ∈ p.live ↔ e.1 ∈ p.known ∧ ∃ c, p.memory e.1 = some c ∧ c.watcher = e.2 := by
  obtain ⟨n, w⟩ := e
  rw [live, List.mem_filterMap]
  constructor
  · rintro ⟨m, hm, heq⟩
    obtain ⟨c, hcell, heq⟩ := Option.map_eq_some_iff.mp heq
    obtain ⟨rfl, rfl⟩ := Prod.mk.inj heq
    exact ⟨hm, c, hcell, rfl⟩
  · rintro ⟨hn, c, hcell, rfl⟩
    exact ⟨n, hn, by rw [hcell]; rfl⟩

/-- A change of a watcher is seen where the watcher is. -/
lemma live_put_of_cell (hcell : p.memory n = some c) (references : Nat) (w : Watcher α) :
    (p.put n (some ⟨references, w⟩)).live =
      p.live.map fun e => if e.1 = n then (n, w) else e := by
  rw [live, live, List.map_filterMap]
  apply List.filterMap_congr
  intro m _
  by_cases hm : m = n
  · subst hm
    simp [hcell]
  · cases hcell' : p.memory m <;> simp [hm, hcell']

/-- A new watcher is the last one. -/
lemma live_start (hfree : p.memory place = none) (w : Watcher α) :
    (p.prune.start place w).live = p.live ++ [(place, w)] := by
  rw [← live_prune p, live, start, known_put, List.filterMap_append]
  congr 1
  · apply List.filterMap_congr
    intro m hm
    have hne : m ≠ place := by
      rintro rfl
      simp [prune, hfree] at hm
    simp [hne]
  · simp

lemma live_known_append (hfree : p.memory place = none) :
    live { p.prune with known := p.prune.known ++ [place] } = p.live := by
  rw [← live_prune p, live, List.filterMap_append]
  simp [hfree, live]

lemma drop_eq (hcell : p.memory s.watcher = some c) : p.drop s = p.put s.watcher
    (if c.references ≤ 1 then none
      else some ⟨c.references - 1, c.watcher.unsubscribe s.key s.id⟩) := by
  rw [drop, modify, hcell, Option.map_some, release_put]

lemma live_drop (hcell : p.memory s.watcher = some c)
    (hends : c.references ≤ 1 ↔ (c.watcher.unsubscribe s.key s.id).watchedFiles = 0) :
    (p.drop s).live = p.live.filterMap (Pool.afterDrop s) := by
  rw [drop_eq hcell, live, live, List.filterMap_filterMap]
  apply List.filterMap_congr
  intro m _
  by_cases hm : m = s.watcher
  · subst hm
    by_cases hlast : c.references ≤ 1
    · simp [hcell, hlast, Pool.afterDrop, hends.mp hlast]
    · simp [hcell, hlast, Pool.afterDrop, mt hends.mpr hlast]
  · cases hcell' : p.memory m <;> simp [hm, hcell', Pool.afterDrop]

end Live

end Provider

end CompiledViews.Watch
