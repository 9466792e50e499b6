import CompiledViews.Proofs.Except
import CompiledViews.Proofs.Path.Logical

/-! The files that are found below a directory are found under names that files have. -/

namespace CompiledViews

open CompiledViews.Path

namespace FileNode

/-- All entries of all directories have names that files have. -/
def WellNamed (t : FileNode) : Prop :=
  ∀ location entries, t.get? location = some (.dir entries) → ∀ e ∈ entries, IsName e.1

lemma wellNamed_file (bytes : List UInt8) : (file bytes).WellNamed := by
  intro location entries h
  cases location <;> simp [get?] at h

/-- A directory is well named when its entries are and what stands in them is. -/
theorem wellNamed_dir {entries : List (String × FileNode)}
    (h : ∀ e ∈ entries, IsName e.1 ∧ e.2.WellNamed) : (dir entries).WellNamed := by
  intro location below hbelow
  cases location with
  | nil =>
    rw [get?, Option.some.injEq, dir.injEq] at hbelow
    exact hbelow ▸ fun e he => (h e he).1
  | cons name names =>
    rw [get?] at hbelow
    obtain ⟨t, ht, hget⟩ := Option.bind_eq_some_iff.mp hbelow
    obtain ⟨e, he, rfl⟩ := Option.map_eq_some_iff.mp ht
    exact (h e (List.mem_of_find?_eq_some he)).2 names below hget

/-- Whether all entries of all directories have names that files have. -/
def hasNames : FileNode → Bool
  | .dir entries => hasNamesAll entries
  | _ => true
where
  hasNamesAll : List (String × FileNode) → Bool
    | [] => true
    | (name, t) :: ts => decide (IsName name) && t.hasNames && hasNamesAll ts

mutual

theorem wellNamed_of_hasNames : ∀ {t : FileNode}, t.hasNames → t.WellNamed
  | .file bytes, _ => wellNamed_file bytes
  | .link target, _ => fun location entries h => by cases location <;> simp [get?] at h
  | .dir entries, h => wellNamed_dir (wellNamed_of_hasNamesAll h)

theorem wellNamed_of_hasNamesAll : ∀ {entries : List (String × FileNode)},
    hasNames.hasNamesAll entries → ∀ e ∈ entries, IsName e.1 ∧ e.2.WellNamed
  | [], _ => by simp
  | (name, t) :: ts, h => by
    simp only [hasNames.hasNamesAll, Bool.and_eq_true, decide_eq_true_eq] at h
    obtain ⟨⟨hname, ht⟩, hts⟩ := h
    exact List.forall_mem_cons.mpr ⟨⟨hname, wellNamed_of_hasNames ht⟩, wellNamed_of_hasNamesAll hts⟩

end

end FileNode

namespace FileTree

variable {t : FileTree}

lemma isDir_of_locate {location : Location} {path : String} {below : List (String × FileNode)}
    (h : t.locate path = .ok location) (hget : t.root.get? location = some (.dir below)) :
    t.isDir path := by
  rw [isDir, find, h, Except.ok_bind, hget]
  rfl

lemma under_eq_ok_iff {name : String} {x : Except Obstacle (List (List String))}
    {files : List (List String)} :
    under name x = .ok files ↔ ∃ below, x = .ok below ∧ files = below.map (name :: ·) := by
  cases x <;> simp [under, eq_comm]

section Entry

variable {walk : String → Location → Except Obstacle (List (List String))} {path name : String}
  {above : List Location} {at_ : Location}

lemma filesAt_dir (entries : List (String × FileNode)) :
    t.filesAt walk path above at_ (name, .dir entries) =
      match t.locate (Path.join path name) with
      | .error e => .error ⟨[name], some e⟩
      | .ok location => under name (walk (Path.join path name) location) := by rfl

lemma filesAt_link (target : String) :
    t.filesAt walk path above at_ (name, .link target) =
      match t.locate (Path.join path name) with
      | .error e => .error ⟨[name], some e⟩
      | .ok location =>
        match t.root.get? location with
        | some (.dir _) =>
          if (at_ :: above).contains location then .error ⟨[name], none⟩
          else under name (walk (Path.join path name) location)
        | some (.file _) => .ok [[name]]
        | _ => .error ⟨[name], some .notFound⟩ := by rfl

/-- An entry is a file, or a directory in which the walk goes on. -/
lemma filesAt_eq_ok {e : FileNode} {files : List (List String)}
    (h : t.filesAt walk path above at_ (name, e) = .ok files) :
    files = [[name]] ∨ ∃ location below,
      walk (Path.join path name) location = .ok below ∧ files = below.map (name :: ·) := by
  have henter : ∀ {location}, under name (walk (Path.join path name) location) = .ok files →
      ∃ location below,
        walk (Path.join path name) location = .ok below ∧ files = below.map (name :: ·) :=
    fun {location} h => ⟨location, under_eq_ok_iff.mp h⟩
  cases e with
  | file bytes => exact .inl (Except.ok.inj h).symm
  | dir entries =>
    rw [filesAt_dir] at h
    split at h
    · cases h
    · exact .inr (henter h)
  | link target =>
    rw [filesAt_link] at h
    split at h
    · cases h
    · split at h
      · split at h
        · cases h
        · exact .inr (henter h)
      · exact .inl (Except.ok.inj h).symm
      · cases h

end Entry

/-- Each file is found under at least one name, and all names that lead to it are names. -/
theorem names_of_filesBelow (ht : t.root.WellNamed) {fuel : Nat} {path : String}
    {above : List Location} {at_ : Location} {files : List (List String)}
    (h : t.filesBelow fuel path above at_ = .ok files) :
    ∀ names ∈ files, names ≠ [] ∧ ∀ n ∈ names, IsName n := by
  induction fuel generalizing path above at_ files with
  | zero => cases h
  | succ fuel ih =>
    rw [filesBelow] at h
    split at h
    case h_1 entries hentries =>
      obtain ⟨found, hfound, hfiles⟩ := Except.bind_eq_ok_iff.mp h
      obtain rfl : files = found.flatten := (Except.ok.inj hfiles).symm
      intro names hnames
      obtain ⟨group, hgroup, hmem⟩ := List.mem_flatten.mp hnames
      obtain ⟨⟨name, e⟩, he, hread⟩ := Except.mem_of_mapM_eq_ok hfound group hgroup
      have hname : IsName name := ht at_ entries hentries _ he
      rcases filesAt_eq_ok hread with rfl | ⟨location, below, hbelow, rfl⟩
      · obtain rfl := List.mem_singleton.mp hmem
        simpa using hname
      · obtain ⟨rest, hrest, rfl⟩ := List.mem_map.mp hmem
        exact ⟨by simp, List.forall_mem_cons.mpr ⟨hname, (ih hbelow rest hrest).2⟩⟩
    case h_2 =>
      obtain rfl : files = [] := (Except.ok.inj h).symm
      simp

end FileTree

/-- The paths that are listed when the files found below a directory have the given names. -/
def listed (root : String) (wildcard : Wildcard) (found : List (List String)) : List String :=
  ((found.filter fun names => (names.getLast?.map wildcard.accepts).getD false).mergeSort
    leNames).map (pathBelow root)

theorem listMatching_eq_ok_iff {t : FileTree} {root pattern : String} {files : List String} :
    listMatching t root pattern = .ok files ↔ ∃ wildcard, Wildcard.ofText pattern = .ok wildcard ∧
      ((∃ e, t.locate root = .error e) ∧ files = [] ∨
        ∃ start found, t.locate root = .ok start ∧
          t.filesBelow (t.root.count * t.root.count + t.root.count + 1) root [] start = .ok found ∧
          files = listed root wildcard found) := by
  rw [listMatching]
  cases Wildcard.ofText pattern with
  | error fault => simp
  | ok wildcard =>
    cases t.locate root with
    | error e => simp [eq_comm]
    | ok start =>
      simp only
      split
      case h_1 hbelow => simp [hbelow]
      case h_2 hbelow => simp [hbelow]
      case h_3 found hbelow => simp [hbelow, listed, eq_comm]

/-- Files that are found in order and all match are listed as they are found. -/
theorem listMatching_of_sorted {t : FileTree} {root pattern : String} {wildcard : Wildcard}
    {start : Location} {found : List (List String)}
    (hwildcard : Wildcard.ofText pattern = .ok wildcard) (hstart : t.locate root = .ok start)
    (hfound : t.filesBelow (t.root.count * t.root.count + t.root.count + 1) root [] start =
      .ok found)
    (haccepts : ∀ names ∈ found, (names.getLast?.map wildcard.accepts).getD false = true)
    (hsorted : found.Pairwise (leNames · ·)) :
    listMatching t root pattern = .ok (found.map (pathBelow root)) := by
  refine listMatching_eq_ok_iff.mpr ⟨wildcard, hwildcard, .inr ⟨start, found, hstart, hfound, ?_⟩⟩
  rw [listed, List.filter_eq_self.mpr haccepts, List.mergeSort_of_pairwise hsorted]

/-- The pattern of the files that are templates. -/
def Wildcard.templates : Wildcard := ⟨[.anyText, .char '.', .char 'h', .char 'b', .char 's']⟩

lemma Wildcard.ofText_templates : Wildcard.ofText "*.hbs" = .ok templates := by decide +kernel

/-- The templates below a directory, when they are found in order. -/
theorem templates_listed {t : FileTree} {root : String} {start : Location} {files : List String}
    {entries : List (String × FileNode)} (found : List (List String))
    (hstart : t.locate root = .ok start) (hget : t.root.get? start = some (.dir entries))
    (hfound : t.filesBelow (t.root.count * t.root.count + t.root.count + 1) root [] start =
      .ok found)
    (haccepts : ∀ names ∈ found,
      (names.getLast?.map Wildcard.templates.accepts).getD false = true)
    (hsorted : found.Pairwise (leNames · ·)) (hfiles : found.map (pathBelow root) = files) :
    t.isDir root ∧ listMatching t root "*.hbs" = .ok files :=
  ⟨FileTree.isDir_of_locate hstart hget,
    hfiles ▸ listMatching_of_sorted Wildcard.ofText_templates hstart hfound haccepts hsorted⟩

/-- What is listed below a directory stands there under names. -/
theorem exists_names_of_listMatching {t : FileTree} (ht : t.root.WellNamed) {root pattern : String}
    {files : List String} (h : listMatching t root pattern = .ok files) :
    ∀ file ∈ files, ∃ names, file = pathBelow root names ∧ names ≠ [] ∧ ∀ n ∈ names, IsName n := by
  obtain ⟨wildcard, -, ⟨-, rfl⟩ | ⟨start, found, -, hfound, rfl⟩⟩ := listMatching_eq_ok_iff.mp h
  · simp
  · intro file hfile
    obtain ⟨names, hnames, rfl⟩ := List.mem_map.mp hfile
    have hmem := List.mem_of_mem_filter (List.mem_mergeSort.mp hnames)
    exact ⟨names, rfl, FileTree.names_of_filesBelow ht hfound names hmem⟩

end CompiledViews
