import CompiledViews.Proofs.Files.Following

/-! What a walk below a directory finds: the names that lead to regular files, each once. -/

namespace CompiledViews

open CompiledViews.Path

namespace FileNode

variable {t : FileNode} {at_ location : Location} {e : FileNode}
  {entries : List (String × FileNode)} {name : String} {names rest : List String}

/-- No two entries of a directory have the same name. -/
def Distinct (t : FileNode) : Prop :=
  ∀ location entries, t.get? location = some (.dir entries) → (entries.map Prod.fst).Nodup

/-- The system can hold all names: none is too long, and none has a null character. -/
def Storable (t : FileNode) : Prop :=
  ∀ location entries, t.get? location = some (.dir entries) → ∀ entry ∈ entries,
    Text.Utf8.size entry.1 ≤ maxNameBytes ∧ '\x00' ∉ entry.1.toList

lemma child?_eq_some_iff (h : (entries.map Prod.fst).Nodup) :
    child? entries name = some e ↔ (name, e) ∈ entries := by
  induction entries with
  | nil => simp [child?]
  | cons entry entries ih =>
    obtain ⟨name', e'⟩ := entry
    rw [List.map_cons, List.nodup_cons] at h
    by_cases hsame : name' = name
    · obtain rfl := hsame
      have hnot : (name', e) ∉ entries := fun hmem => h.1 (List.mem_map.mpr ⟨_, hmem, rfl⟩)
      simp [child?, hnot, eq_comm]
    · have hrest := ih h.2
      simp only [child?] at hrest
      simp [child?, hsame, hrest, Ne.symm hsame]

/-- What a directory has under a name is its only entry of the name. -/
lemma Distinct.child?_iff (ht : t.Distinct) (hdir : t.get? at_ = some (.dir entries)) :
    child? entries name = some e ↔ (name, e) ∈ entries :=
  child?_eq_some_iff (ht at_ entries hdir)

/-- A directory has an entry for each of its names. -/
lemma mem_of_child? (h : child? entries name = some e) : ∃ entry ∈ entries, entry.1 = name := by
  obtain ⟨entry, hfind, -⟩ := Option.map_eq_some_iff.mp h
  exact ⟨entry, List.mem_of_find?_eq_some hfind, by simpa using List.find?_some hfind⟩

/-- Names lead from a location to a regular file, however many links are on the way. -/
def HasFile (t : FileNode) (at_ : Location) (names : List String) : Prop :=
  ∃ location bytes, t.LeadTo at_ names location ∧ t.get? location = some (.file bytes)

lemma hasFile_cons : t.HasFile at_ (name :: rest) ↔
    ∃ location, t.LeadTo at_ [name] location ∧ t.HasFile location rest := by
  have hcons : ∀ location, t.LeadTo at_ (name :: rest) location ↔
      ∃ mid, t.LeadTo at_ [name] mid ∧ t.LeadTo mid rest location := fun _ => leadTo_cons
  simp only [HasFile, hcons]
  constructor
  · rintro ⟨location, bytes, ⟨mid, hfirst, hrest⟩, hget⟩
    exact ⟨mid, hfirst, location, bytes, hrest, hget⟩
  · rintro ⟨mid, hfirst, location, bytes, hrest, hget⟩
    exact ⟨location, bytes, ⟨mid, hfirst, hrest⟩, hget⟩

/-- Nothing lies below a file. -/
lemma hasFile_iff_of_file {bytes : List UInt8} (hget : t.get? location = some (.file bytes)) :
    t.HasFile location names ↔ names = [] := by
  constructor
  · rintro ⟨end_, -, hlead, -⟩
    cases names with
    | nil => rfl
    | cons name rest =>
      obtain ⟨entries, -, hdir, -⟩ := hlead.exists_child
      cases hget.symm.trans hdir
  · rintro rfl
    exact ⟨location, bytes, leadTo_nil.mpr rfl, hget⟩

/-- A directory is no file. -/
lemma HasFile.ne_nil (h : t.HasFile at_ names) (hdir : t.get? at_ = some (.dir entries)) :
    names ≠ [] := by
  rintro rfl
  obtain ⟨location, bytes, hlead, hget⟩ := h
  obtain rfl := leadTo_nil.mp hlead
  cases hdir.symm.trans hget

lemma LeadTo.isName (ht : t.WellNamed) (h : t.LeadTo at_ names location) :
    ∀ n ∈ names, IsName n := by
  induction names generalizing at_ with
  | nil => simp
  | cons name rest ih =>
    obtain ⟨mid, hfirst, hrest⟩ := leadTo_cons.mp h
    obtain ⟨entries, e, hdir, hchild⟩ := hfirst.exists_child
    obtain ⟨entry, hmem, rfl⟩ := mem_of_child? hchild
    exact List.forall_mem_cons.mpr ⟨ht at_ entries hdir entry hmem, ih hrest⟩

end FileNode

namespace FileTree

open FileNode (child?)

variable {t : FileTree} {at_ : Location} {above : List Location} {e : FileNode}
  {entries : List (String × FileNode)} {path name : String} {names : List String}
  {walk : String → Location → Except Obstacle (List (List String))} {found : List (List String)}
  {fuel : ℕ}

section Entries

/-- The system has been asked for the path of an entry that is walked and is no file. -/
lemma exists_locate_of_filesAt (he : ∀ bytes, e ≠ .file bytes)
    (h : t.filesAt walk path above at_ (name, e) = .ok found) :
    ∃ location, t.locate (join path name) = .ok location := by
  cases hlocate : t.locate (join path name) with
  | ok location => exact ⟨location, rfl⟩
  | error error =>
    cases e with
    | file bytes => exact absurd rfl (he bytes)
    | dir below =>
      rw [filesAt_dir, hlocate] at h
      cases h
    | link target =>
      rw [filesAt_link, hlocate] at h
      cases h

/-- What an entry yields that is walked: the file that it leads to, or those below the directory
that it leads to. -/
theorem filesAt_found (hat : t.locate path = .ok at_)
    (hdir : t.root.get? at_ = some (.dir entries)) (hname : IsName name)
    (hshort : Text.Utf8.size name ≤ FileNode.maxNameBytes) (hchild : child? entries name = some e)
    (h : t.filesAt walk path above at_ (name, e) = .ok found) :
    ∃ location part, t.root.LeadTo at_ [name] location ∧ t.root.get? location = some part ∧
      ((∃ bytes, part = .file bytes) ∧ found = [[name]] ∨
        (∃ below, part = .dir below) ∧ t.locate (join path name) = .ok location ∧
          ∃ files, walk (join path name) location = .ok files ∧
            found = files.map (name :: ·)) := by
  have hget : t.root.get? (at_ ++ [name]) = some e :=
    FileNode.get?_concat_eq_some_iff.mpr ⟨entries, hdir, hchild⟩
  have hplain := FileNode.leadTo_of_child hdir hshort hchild
  have hlead : ∀ {location}, t.locate (join path name) = .ok location →
      t.root.LeadTo at_ [name] location :=
    fun hlocate => leadTo_of_locate hat (List.forall_mem_singleton.mpr hname) hlocate
  cases e with
  | file bytes =>
    obtain rfl : [[name]] = found := Except.ok.inj h
    exact ⟨_, _, hplain (by simp), hget, .inl ⟨⟨bytes, rfl⟩, rfl⟩⟩
  | dir below =>
    rw [filesAt_dir] at h
    split at h
    case h_1 => cases h
    case h_2 location hlocate =>
      obtain rfl := (hplain (by simp)).unique (hlead hlocate)
      exact ⟨_, _, hlead hlocate, hget, .inr ⟨⟨below, rfl⟩, hlocate, under_eq_ok_iff.mp h⟩⟩
  | link target =>
    rw [filesAt_link] at h
    split at h
    case h_1 => cases h
    case h_2 location hlocate =>
      split at h
      case h_1 below hget =>
        split at h
        case isTrue => cases h
        case isFalse =>
          exact ⟨location, _, hlead hlocate, hget,
            .inr ⟨⟨below, rfl⟩, hlocate, under_eq_ok_iff.mp h⟩⟩
      case h_2 bytes hget =>
        obtain rfl : [[name]] = found := Except.ok.inj h
        exact ⟨location, _, hlead hlocate, hget, .inl ⟨⟨bytes, rfl⟩, rfl⟩⟩
      case h_3 => cases h

/-- An entry yields the files that its name leads to, if a walk below it yields those there. -/
theorem mem_filesAt_iff (hat : t.locate path = .ok at_)
    (hdir : t.root.get? at_ = some (.dir entries)) (hname : IsName name)
    (hshort : Text.Utf8.size name ≤ FileNode.maxNameBytes) (hchild : child? entries name = some e)
    (h : t.filesAt walk path above at_ (name, e) = .ok found)
    (hwalk : ∀ location below files, t.locate (join path name) = .ok location →
      t.root.get? location = some (.dir below) → walk (join path name) location = .ok files →
        ∀ rest, rest ∈ files ↔ t.root.HasFile location rest) (rest : List String) :
    name :: rest ∈ found ↔ t.root.HasFile at_ (name :: rest) := by
  obtain ⟨location, part, hlead, hget, hfound⟩ := filesAt_found hat hdir hname hshort hchild h
  have hiff : t.root.HasFile at_ (name :: rest) ↔ t.root.HasFile location rest := by
    rw [FileNode.hasFile_cons]
    refine ⟨fun ⟨mid, hmid, hrest⟩ => ?_, fun hrest => ⟨location, hlead, hrest⟩⟩
    exact hlead.unique hmid ▸ hrest
  rw [hiff]
  rcases hfound with ⟨⟨bytes, rfl⟩, rfl⟩ | ⟨⟨below, rfl⟩, hlocate, files, hfiles, rfl⟩
  · rw [FileNode.hasFile_iff_of_file hget]
    simp
  · rw [← hwalk location below files hlocate hget hfiles]
    simp

lemma exists_cons_of_mem_filesAt (h : t.filesAt walk path above at_ (name, e) = .ok found)
    (hmem : names ∈ found) : ∃ rest, names = name :: rest := by
  rcases filesAt_eq_ok h with rfl | ⟨location, files, -, rfl⟩
  · exact ⟨[], List.mem_singleton.mp hmem⟩
  · obtain ⟨rest, -, rfl⟩ := List.mem_map.mp hmem
    exact ⟨rest, rfl⟩

end Entries

section Found

/-- The walk that goes on in a directory below others. -/
abbrev past (t : FileTree) (fuel : ℕ) (above : List Location) :
    String → Location → Except Obstacle (List (List String)) :=
  fun path location => t.filesBelow fuel path above location

/-- A walk that comes to its end in a directory has walked through each entry. -/
lemma filesBelow_eq_ok_iff (hdir : t.root.get? at_ = some (.dir entries)) :
    t.filesBelow (fuel + 1) path above at_ = .ok found ↔ ∃ groups,
      List.Forall₂ (fun entry group =>
        t.filesAt (t.past fuel (at_ :: above)) path above at_ entry = .ok group) entries groups ∧
      found = groups.flatten := by
  rw [filesBelow, hdir]
  simp only [Except.bind_eq_ok_iff, Except.mapM_eq_ok_iff]
  exact exists_congr fun groups =>
    and_congr_right' ⟨fun h => (Except.ok.inj h).symm, fun h => h ▸ rfl⟩

/-- The files that are found below a directory are the files that names lead to from there. -/
theorem mem_filesBelow_iff (hnamed : t.root.WellNamed) (hdistinct : t.root.Distinct)
    (hstorable : t.root.Storable) (h : t.filesBelow fuel path above at_ = .ok found)
    (hat : t.locate path = .ok at_) (hdir : t.root.get? at_ = some (.dir entries))
    (names : List String) : names ∈ found ↔ t.root.HasFile at_ names := by
  induction fuel generalizing path above at_ found entries names with
  | zero => cases h
  | succ fuel ih =>
    obtain ⟨groups, hgroups, rfl⟩ := (filesBelow_eq_ok_iff hdir).mp h
    -- the walk goes on in the directories that the entries lead to
    have hentry : ∀ {name e group}, (name, e) ∈ entries →
        t.filesAt (t.past fuel (at_ :: above)) path above at_ (name, e) = .ok group →
        ∀ rest, name :: rest ∈ group ↔ t.root.HasFile at_ (name :: rest) := by
      intro name e group he hfiles
      have hname : IsName name := hnamed at_ entries hdir _ he
      have hchild := (hdistinct.child?_iff hdir).mpr he
      exact mem_filesAt_iff hat hdir hname (hstorable at_ entries hdir _ he).1 hchild hfiles
        fun location below files hlocate hget hwalk => ih hwalk hlocate hget
    rw [List.mem_flatten]
    constructor
    · rintro ⟨group, hgroup, hmem⟩
      obtain ⟨⟨name, e⟩, he, hfiles⟩ := exists_of_mem_right hgroups group hgroup
      obtain ⟨rest, rfl⟩ := exists_cons_of_mem_filesAt hfiles hmem
      exact (hentry he hfiles rest).mp hmem
    · intro hfile
      obtain ⟨name, rest, rfl⟩ := List.exists_cons_of_ne_nil (hfile.ne_nil hdir)
      obtain ⟨mid, hfirst, -⟩ := FileNode.hasFile_cons.mp hfile
      obtain ⟨entries', e, hdir', hchild⟩ := hfirst.exists_child
      obtain rfl : entries = entries' := FileNode.entries_unique hdir hdir'
      have he := (hdistinct.child?_iff hdir).mp hchild
      obtain ⟨group, hgroup, hfiles⟩ := exists_of_mem_left hgroups (name, e) he
      exact ⟨group, hgroup, (hentry he hfiles rest).mpr hfile⟩

/-- What an entry yields is found once each, and under its name. -/
lemma nodup_of_filesAt
    (hwalk : ∀ path' location files, walk path' location = .ok files → files.Nodup)
    (h : t.filesAt walk path above at_ (name, e) = .ok found) :
    found.Nodup ∧ ∀ names ∈ found, names.head? = some name := by
  rcases filesAt_eq_ok h with rfl | ⟨location, files, hfiles, rfl⟩
  · simp
  · exact ⟨(hwalk _ _ _ hfiles).map fun _ _ => List.tail_eq_of_cons_eq, by simp⟩

/-- No file is found twice under the same names. -/
theorem nodup_filesBelow (hdistinct : t.root.Distinct)
    (h : t.filesBelow fuel path above at_ = .ok found) : found.Nodup := by
  induction fuel generalizing path above at_ found with
  | zero => cases h
  | succ fuel ih =>
    by_cases hdir : ∃ entries, t.root.get? at_ = some (.dir entries)
    · obtain ⟨entries, hdir⟩ := hdir
      obtain ⟨groups, hgroups, rfl⟩ := (filesBelow_eq_ok_iff hdir).mp h
      exact nodup_flatten_of_forall₂ (hdistinct at_ entries hdir)
        (hgroups.imp fun _ _ => nodup_of_filesAt fun _ _ _ => ih)
    · rw [filesBelow] at h
      split at h
      case h_1 entries hentries => exact absurd ⟨entries, hentries⟩ hdir
      case h_2 =>
        obtain rfl : [] = found := Except.ok.inj h
        exact List.nodup_nil

end Found

end FileTree

end CompiledViews
