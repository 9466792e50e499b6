import CompiledViews.Proofs.Path.Below
import CompiledViews.Proofs.Watch.Lifetime
import CompiledViews.Proofs.Watch.Routing

/-! Which files a watcher covers. It goes by how a path begins, and what follows the directory in
the path may still lead out of it. Where it does not, the file lies in the directory. -/

namespace CompiledViews.Watch

open CompiledViews.Path

variable {α : Type} {t : FileTree} {root file logical : String} {listener : α}

/-- What follows a directory in a path does not lead out of the directory on its way. -/
def StaysBelow (rest : List Component) : Prop := (Resolved.ofComponents rest).ups = 0

lemma StaysBelow.isAtOrBelow {front rest : List Component} (h : StaysBelow rest)
    (hroot : .root ∉ rest) :
    (Resolved.ofComponents (front ++ rest)).IsAtOrBelow (Resolved.ofComponents front) := by
  rw [Resolved.ofComponents, List.foldl_append, Resolved.foldl_step_eq_append _ hroot]
  exact Resolved.isAtOrBelow_append _ h

namespace Watcher

variable {w w' : Watcher α} {key : Key}

/-- The directory is told by a path with something in it, and so is where it really is. -/
structure Rooted (w : Watcher α) : Prop where
  root_ne_nil : components w.root ≠ []
  canonical_ne_nil : w.canonical ≠ []

/-- Once dots and steps up are resolved, a file is in the directory of a watcher, and its key where
the directory really is. -/
structure Encloses (w : Watcher α) (file : String) (key : Key) : Prop where
  file_below : (resolve file).IsAtOrBelow (resolve w.root) ∨
    (resolve file).IsAtOrBelow (Resolved.ofComponents w.canonical)
  key_below : (Resolved.ofComponents key).IsAtOrBelow (Resolved.ofComponents w.canonical)

lemma key?_congr (hroot : w'.root = w.root) (hcanonical : w'.canonical = w.canonical) :
    w'.key? file = w.key? file := by
  rw [key?, key?, hroot, hcanonical]

/-- A key is where a directory really is, with what follows the directory in the path. -/
lemma exists_rest_of_key?_eq_some (hkey : w.key? file = some key) :
    ∃ rest, key = w.canonical ++ rest ∧
      (components file = components w.root ++ rest ∨ components file = w.canonical ++ rest) := by
  obtain ⟨rest, hrest, rfl⟩ := Option.map_eq_some_iff.mp hkey
  refine ⟨rest, rfl, ?_⟩
  rcases Option.or_eq_some_iff.mp hrest with hroot | ⟨-, hcanonical⟩
  · exact .inl (stripComponents_eq_some_iff.mp hroot)
  · exact .inr (stripComponents_eq_some_iff.mp hcanonical)

namespace Rooted

lemma of_start (hstart : Watcher.start t root = .ok w) : w.Rooted := by
  obtain ⟨location, hlocation, rfl⟩ := start_eq_ok_iff.mp hstart
  constructor
  case root_ne_nil =>
    apply components_ne_nil
    rintro rfl
    cases hlocation
  case canonical_ne_nil => exact List.cons_ne_nil _ _

lemma of_eq (h : w.Rooted) (hroot : w'.root = w.root) (hcanonical : w'.canonical = w.canonical) :
    w'.Rooted where
  root_ne_nil := hroot ▸ h.root_ne_nil
  canonical_ne_nil := hcanonical ▸ h.canonical_ne_nil

/-- A covered file is enclosed, if what follows the directory in its path stays below. -/
theorem encloses (h : w.Rooted) (hkey : w.key? file = some key) :
    ∃ rest, key = w.canonical ++ rest ∧ (StaysBelow rest → w.Encloses file key) := by
  obtain ⟨rest, rfl, hfile⟩ := exists_rest_of_key?_eq_some hkey
  have hroot : .root ∉ rest := by
    rcases hfile with hfile | hfile
    · exact root_not_mem_of_components_eq hfile h.root_ne_nil
    · exact root_not_mem_of_components_eq hfile h.canonical_ne_nil
  refine ⟨rest, rfl, fun hstays => ⟨?_, hstays.isAtOrBelow hroot⟩⟩
  rw [resolve]
  rcases hfile with hfile | hfile
  · left
    rw [hfile]
    exact hstays.isAtOrBelow hroot
  · right
    rw [hfile]
    exact hstays.isAtOrBelow hroot

end Rooted

lemma Serves.directory_eq {canonical : Key} {armed : List (Key × Subscriber α)}
    (h : Serves root canonical w armed) : w.root = root ∧ w.canonical = canonical := by
  induction h with
  | start => exact ⟨rfl, rfl⟩
  | subscribe h hsubscribe ih =>
    obtain ⟨-, -, hroot, hcanonical, -⟩ := h.routes.tidy.subscribe hsubscribe
    exact ⟨hroot.trans ih.1, hcanonical.trans ih.2⟩
  | unsubscribe _ ih => exact ih

end Watcher

namespace Pool

variable {p p' : Pool α} {s : Subscription} {held : List Subscription}

/-- A subscription is on a watcher that covers the file, under the key that the file has there. The
watcher was live before, or is new; the others were live before. -/
theorem Subscribes.exists_watcher (hs : p.Subscribes t root file logical listener s p')
    (h : p.Tidy) : ∃ w w', ((s.watcher, w) ∈ p.live ∨ Watcher.start t root = .ok w) ∧
      w'.root = w.root ∧ w'.canonical = w.canonical ∧ w'.key? file = some s.key ∧
      (s.watcher, w') ∈ p'.live ∧ ∀ e ∈ p'.live, e = (s.watcher, w') ∨ e ∈ p.live := by
  cases hs with
  | @joined front back n w w' key id hlive hsubscribe =>
    have hmem : (n, w) ∈ p.live := hlive ▸ by simp
    obtain ⟨-, hkey, hroot, hcanonical, -⟩ := (h.tidy _ hmem).subscribe hsubscribe
    refine ⟨w, w', .inl hmem, hroot, hcanonical, ?_, by simp, ?_⟩
    · rw [Watcher.key?_congr hroot hcanonical, hkey]
    · rw [hlive]
      simp only [List.mem_append, List.mem_cons]
      tauto
  | @begun w w' key id huncovered hstart hsubscribe =>
    have htidy : w.Tidy := by
      obtain ⟨location, -, rfl⟩ := Watcher.start_eq_ok_iff.mp hstart
      exact .start root _
    obtain ⟨-, hkey, hroot, hcanonical, -⟩ := htidy.subscribe hsubscribe
    refine ⟨w, w', .inr hstart, hroot, hcanonical, ?_, by simp, ?_⟩
    · rw [Watcher.key?_congr hroot hcanonical, hkey]
    · simp only [List.mem_append, List.mem_singleton]
      tauto

lemma Serves.tidy (h : Serves p held) : p.Tidy := by
  induction h with
  | start => exact tidy_empty
  | watch _ hwatch ih => exact ((ih.subscribes hwatch).listeners ih).1
  | drop _ ih => exact ih.drop _

theorem Serves.rooted (h : Serves p held) : ∀ e ∈ p.live, e.2.Rooted := by
  induction h with
  | start => simp
  | watch h hwatch ih =>
    obtain ⟨w, w', hw, hroot, hcanonical, -, -, hothers⟩ :=
      (h.tidy.subscribes hwatch).exists_watcher h.tidy
    have hrooted : w.Rooted := by
      rcases hw with hlive | hstart
      · exact ih _ hlive
      · exact .of_start hstart
    intro e he
    rcases hothers e he with rfl | he
    · exact hrooted.of_eq hroot hcanonical
    · exact ih e he
  | drop _ ih =>
    intro e he
    obtain ⟨e', he', hroot, hcanonical⟩ := exists_of_mem_drop he
    exact (ih e' he').of_eq hroot hcanonical

end Pool

/-- A watcher covers only files in its directory, wherever their paths have dots and steps up, as
long as what follows the directory in the path does not lead out of it. So does the watcher, of all
that are live, on which a call subscribes. -/
theorem covered_files_enclosed :
    (∀ t root (w₀ w : Watcher α) armed, Watcher.start t root = .ok w₀ →
      Watcher.Serves w₀.root w₀.canonical w armed →
      ∀ file, w.covers file = true → ∃ rest, w.key? file = some (w.canonical ++ rest) ∧
        (StaysBelow rest → w.Encloses file (w.canonical ++ rest))) ∧
    ∀ (q : Pool α) held, Pool.Serves q held → ∀ t root file logical listener s q',
      q.watch t root file logical listener = .ok (s, q') →
      ∃ w rest, (s.watcher, w) ∈ q'.live ∧ w.key? file = some s.key ∧
        s.key = w.canonical ++ rest ∧ (StaysBelow rest → w.Encloses file s.key) := by
  constructor
  · intro t root w₀ w armed hstart hserves file hcovers
    obtain ⟨hroot, hcanonical⟩ := hserves.directory_eq
    have hrooted := (Watcher.Rooted.of_start hstart).of_eq hroot hcanonical
    obtain ⟨key, hkey⟩ := Option.isSome_iff_exists.mp hcovers
    obtain ⟨rest, rfl, hencloses⟩ := hrooted.encloses hkey
    exact ⟨rest, hkey, hencloses⟩
  · intro q held hserves t root file logical listener s q' hwatch
    obtain ⟨-, w, -, -, -, hkey, hlive, -⟩ :=
      (hserves.tidy.subscribes hwatch).exists_watcher hserves.tidy
    obtain ⟨rest, hrest, hencloses⟩ := ((hserves.watch hwatch).rooted _ hlive).encloses hkey
    exact ⟨w, rest, hlive, hkey, hrest, hencloses⟩

section Beside

/-- Two directories side by side. -/
def twoDirectories : FileTree :=
  ⟨.dir [("w", .dir [("views", .dir []), ("other", .dir [])])], ["w"]⟩

/-- A watcher of the first, to which nobody has subscribed. -/
def viewsWatcher : Watcher Unit :=
  { root := "views", canonical := [.root, .name "w", .name "views"] }

/-- The watcher with a subscription to a file. -/
def viewsPool : Pool Unit where
  live := [(0, { viewsWatcher with
    subscribers := [(viewsWatcher.canonical ++ [.name "a.hbs"], [⟨0, "/a.hbs", ()⟩])]
    nextId := 1 })]
  started := 1

lemma start_viewsWatcher : Watcher.start twoDirectories "views" = .ok viewsWatcher := by
  obtain ⟨-, hcanonical⟩ : twoDirectories.locate "views" = .ok ["w", "views"] ∧
      twoDirectories.canonicalize "views" = .ok ["w", "views"] :=
    FileTree.resolved_name (by decide) (by decide) (by decide) (by decide) rfl rfl (by simp)
  exact Watcher.start_eq_ok_iff.mpr ⟨_, hcanonical, rfl⟩

lemma serves_viewsPool : Pool.Serves viewsPool
    [⟨0, 0, viewsWatcher.canonical ++ [.name "a.hbs"]⟩] := by
  have hwatch : Pool.watch {} twoDirectories "views" "views/a.hbs" "/a.hbs" () =
      .ok (⟨0, 0, viewsWatcher.canonical ++ [.name "a.hbs"]⟩, viewsPool) :=
    Pool.watch_of_uncovered (by simp) start_viewsWatcher (by decide)
  exact Pool.Serves.start.watch hwatch

/-- A file whose path goes down and up again in the directory is in it, also where the other
directory is named for it. -/
theorem covered_files_enclosed_down_and_up :
    let file := "views/b/../b.hbs"
    let rest : List Component := [.name "b", .up, .name "b.hbs"]
    StaysBelow rest ∧ viewsWatcher.covers file = true ∧
      viewsWatcher.Encloses file (viewsWatcher.canonical ++ rest) ∧
      ∃ (s : Subscription) (q : Pool Unit) (w : Watcher Unit),
        viewsPool.watch twoDirectories "other" file "/b.hbs" () = .ok (s, q) ∧
        (s.watcher, w) ∈ q.live ∧ w.root = "views" ∧ w.Encloses file s.key := by
  intro file rest
  have hstays : StaysBelow rest := rfl
  have hkey : viewsWatcher.key? file = some (viewsWatcher.canonical ++ rest) := by decide
  have hcovers : viewsWatcher.covers file = true := by
    rw [Watcher.covers, hkey]
    rfl
  let watched : Watcher Unit := { viewsWatcher with
    subscribers := [(viewsWatcher.canonical ++ [.name "a.hbs"], [⟨0, "/a.hbs", ()⟩]),
      (viewsWatcher.canonical ++ rest, [⟨1, "/b.hbs", ()⟩])]
    nextId := 2 }
  have hwatch : viewsPool.watch twoDirectories "other" file "/b.hbs" () =
      .ok (⟨0, 1, viewsWatcher.canonical ++ rest⟩, ⟨[(0, watched)], 1⟩) :=
    Pool.watch_of_cons rfl (by decide)
  obtain ⟨hwatcher, hpool⟩ := covered_files_enclosed (α := Unit)
  refine ⟨hstays, hcovers, ?_, _, _, watched, hwatch, List.mem_singleton_self _, rfl, ?_⟩
  · obtain ⟨rest', hrest, hencloses⟩ := hwatcher _ _ _ _ _ start_viewsWatcher .start file hcovers
    obtain rfl : rest = rest' := List.append_cancel_left (Option.some.inj (hkey.symm.trans hrest))
    exact hencloses hstays
  · obtain ⟨w, rest', hlive, -, hrest, hencloses⟩ := hpool _ _ serves_viewsPool _ _ _ _ _ _ _ hwatch
    obtain rfl : w = watched := (Prod.mk.inj (List.mem_singleton.mp hlive)).2
    obtain rfl : rest = rest' := List.append_cancel_left hrest
    exact hencloses hstays

/-- A file of the other directory is covered if its path goes through the first, and whoever watches
it there is put on the watcher of the first. -/
theorem file_beside_covered :
    let file := "views/../other/x.hbs"
    let key := viewsWatcher.canonical ++ [.up, .name "other", .name "x.hbs"]
    Watcher.start twoDirectories "views" = .ok viewsWatcher ∧
      viewsWatcher.covers file = true ∧ viewsWatcher.key? file = some key ∧
      ¬(resolve file).IsAtOrBelow (resolve "views") ∧
      ¬(resolve file).IsAtOrBelow (Resolved.ofComponents viewsWatcher.canonical) ∧
      ¬(Resolved.ofComponents key).IsAtOrBelow (Resolved.ofComponents viewsWatcher.canonical) ∧
      ∃ s held q, Pool.Serves viewsPool held ∧
        viewsPool.watch twoDirectories "other" file "/x.hbs" () = .ok (s, q) ∧
        s.key = key ∧ q.live.map (fun e => (e.1, e.2.root)) = [(s.watcher, "views")] := by
  intro file key
  let watched : Watcher Unit := { viewsWatcher with
    subscribers := [(viewsWatcher.canonical ++ [.name "a.hbs"], [⟨0, "/a.hbs", ()⟩]),
      (key, [⟨1, "/x.hbs", ()⟩])]
    nextId := 2 }
  have hwatch : viewsPool.watch twoDirectories "other" file "/x.hbs" () =
      .ok (⟨0, 1, key⟩, ⟨[(0, watched)], 1⟩) :=
    Pool.watch_of_cons rfl (by decide)
  refine ⟨start_viewsWatcher, by decide, by decide, ?_, ?_, ?_, _, _, _,
    serves_viewsPool, hwatch, rfl, rfl⟩
  · exact fun h => absurd h.isPrefix (by decide)
  · exact fun h => absurd h.isPrefix (by decide)
  · exact fun h => absurd h.isPrefix (by decide)

end Beside

end CompiledViews.Watch
