import CompiledViews.Proofs.Source.Contents

/-! Files that lie below a directory under names without a backslash are told apart by their logical
paths, so that no file takes the place of another in the registry. A backslash separates names in a
logical path as a slash does. -/

namespace CompiledViews

open CompiledViews.Path

namespace Catalogue

variable {t : FileTree} {s : Sources} {g : Generation} {watched : Bool} {c : Catalogue}

/-- Without templates in the configuration all sources are those of files. -/
theorem exists_isOf_of_mem_values (htemplates : s.templates.rows = [])
    (hpopulate : populate t s g watched = .ok c) {files : List String}
    (hfiles : Finds t s files) {source : Source} (hsource : source ∈ c.registry.sources.values) :
    ∃ file ∈ files, source.IsOf s.root watched file := by
  have hlookup := ((keyed_of_populate hpopulate).mem_values_iff source).mp hsource
  obtain ⟨found, sources, hfinds, hsources, hregistry⟩ := registry_populate hpopulate
  obtain rfl := hfinds.unique hfiles
  rw [hregistry, htemplates, List.map_nil, List.append_nil, Registry.lookup_registerAll] at hlookup
  have hmem : source ∈ sources := by
    rcases Option.or_eq_some_iff.mp hlookup with hfound | ⟨-, hempty⟩
    · exact List.mem_reverse.mp (List.mem_of_find?_eq_some hfound)
    · cases hempty
  obtain ⟨file, hfile, hof⟩ := exists_of_mem_right hsources source hmem
  exact ⟨file, List.mem_of_mem_filter hfile, hof⟩

/-- Of files without a common logical path each with a logical path keeps its own source. -/
theorem existsUnique_source (htemplates : s.templates.rows = [])
    (hpopulate : populate t s g watched = .ok c) {files : List String}
    (hfiles : Finds t s files)
    (hdistinct : ∀ file ∈ files, ∀ file' ∈ files, ∀ path, logicalPath? s.root file = some path →
      logicalPath? s.root file' = some path → file = file') {file path : String}
    (hfile : file ∈ files) (hpath : logicalPath? s.root file = some path) :
    ∃! source, source ∈ c.registry.sources.values ∧ source.file? = some file := by
  have hkeyed := keyed_of_populate hpopulate
  have htab := tabulates_of_populate hpopulate hfiles
  have hcanonical := normalizeLogical_of_logicalPath? hpath
  have hkey : normalizeLogical path ∈ c.registry.paths := by
    rw [hcanonical]
    exact (htab.mem_paths_iff path).mpr (.inl ⟨file, hfile, hpath⟩)
  obtain ⟨source, hlookup⟩ := Option.isSome_iff_exists.mp ((htab.lookup_isSome_iff path).mpr hkey)
  have hown : source.path = path := (htab.yields path source hlookup).1.trans hcanonical
  have hmem : source ∈ c.registry.sources.values :=
    (hkeyed.mem_values_iff source).mpr (hown.symm ▸ hlookup)
  refine ⟨source, ⟨hmem, ?_⟩, ?_⟩
  · obtain ⟨file', hfile', hof⟩ := exists_isOf_of_mem_values htemplates hpopulate hfiles hmem
    obtain rfl := hdistinct file hfile file' hfile' path hpath (hown ▸ hof.path)
    exact hof.file?_eq
  · rintro other ⟨hother, hfile'⟩
    obtain ⟨file', -, hof⟩ := exists_isOf_of_mem_values htemplates hpopulate hfiles hother
    obtain rfl : file' = file := Option.some.inj (hof.file?_eq.symm.trans hfile')
    have hsame : other.path = path := Option.some.inj (hof.path.symm.trans hpath)
    have hlookup' := (hkeyed.mem_values_iff other).mp hother
    rw [hsame, hlookup] at hlookup'
    exact (Option.some.inj hlookup').symm

/-- Two files below a directory under names without a backslash have different logical paths. So if
all files that are listed are below the directory under such names, and there are no templates in
the configuration, populating registers one source for each file that has a logical path, and no
others. It succeeds, unless the directory is to be watched and has no path from the root. -/
theorem plain_files_registered (root : String) :
    (∀ file file' path path', PlainlyBelow root file → PlainlyBelow root file' → file ≠ file' →
      logicalPath? root file = some path → logicalPath? root file' = some path' → path ≠ path') ∧
    ∀ (t : FileTree) (s : Sources) (files : List String), s.root = root → s.templates = {} →
      t.root.WellNamed → t.isDir root → listMatching t root s.pattern = .ok files →
      (∀ file ∈ files, PlainlyBelow root file) →
      ∀ g watched,
        (∀ c, populate t s g watched = .ok c →
          (∀ source ∈ c.registry.sources.values, ∃ file ∈ files, source.IsOf root watched file) ∧
          ∀ file ∈ files, (logicalPath? root file).isSome →
            ∃! source, source ∈ c.registry.sources.values ∧ source.file? = some file) ∧
        ((watched = true → files ≠ [] → ∃ location, t.canonicalize root = .ok location) →
          ∃ c, populate t s g watched = .ok c) := by
  constructor
  · rintro file file' path path' hplain hplain' hne hpath hpath' rfl
    exact hne (hplain.logicalPath?_inj hplain' hpath hpath')
  · rintro t s files rfl htemplates ht hdir hfiles hplain g watched
    have hrows : s.templates.rows = [] := by rw [htemplates]; rfl
    have hfinds : Finds t s files := by rwa [Finds, if_pos hdir]
    refine ⟨fun c hpopulate => ⟨?_, fun file hfile hsome => ?_⟩, exists_populate g ht hdir hfiles⟩
    · exact fun source => exists_isOf_of_mem_values hrows hpopulate hfinds
    · obtain ⟨path, hpath⟩ := Option.isSome_iff_exists.mp hsome
      refine existsUnique_source hrows hpopulate hfinds ?_ hfile hpath
      intro file₁ hfile₁ file₂ hfile₂ path hpath₁ hpath₂
      exact (hplain file₁ hfile₁).logicalPath?_inj (hplain file₂ hfile₂) hpath₁ hpath₂

theorem plain_files_registered_nested :
    let t : FileTree := ⟨.dir [("a", .dir [("b.hbs", .file [])]), ("b.hbs", .file [])], ["a"]⟩
    ∃ c, populate t { root := ".." } {} true = .ok c ∧
      (∃! source, source ∈ c.registry.sources.values ∧ source.file? = some "../a/b.hbs") ∧
      ∃! source, source ∈ c.registry.sources.values ∧ source.file? = some "../b.hbs" := by
  intro t
  have ht : t.root.WellNamed := FileNode.wellNamed_of_hasNames (by decide)
  have hbelow : [["a", "b.hbs"], ["b.hbs"]].map (pathBelow "..") = ["../a/b.hbs", "../b.hbs"] := by
    decide
  have hroot : t.root.get? [] = some t.root := rfl
  have ha : t.root.get? ["a"] = some (.dir [("b.hbs", .file [])]) := rfl
  obtain ⟨hlocate, hcanonical⟩ : t.locate ".." = .ok [] ∧ t.canonicalize ".." = .ok [] :=
    FileTree.resolved_of_leads [.up] (by decide) (by decide) (.up ha .stay) (by decide)
  have hlocate₁ : t.locate (join ".." "a") = .ok ["a"] :=
    FileTree.locate_join_of_child hlocate (by decide) (by decide) (by decide) hroot rfl (by simp)
  have hfuel : t.root.count * t.root.count + t.root.count = 19 + 1 := by decide
  have hfound : t.filesBelow (t.root.count * t.root.count + t.root.count + 1) ".." [] [] =
      .ok [["a", "b.hbs"], ["b.hbs"]] := by
    rw [hfuel, FileTree.filesBelow, hroot]
    simp only [List.mapM_cons, FileTree.filesAt_dir, hlocate₁, t]
    rfl
  obtain ⟨hdir, hfiles⟩ : t.isDir ".." ∧
      listMatching t ".." "*.hbs" = .ok ["../a/b.hbs", "../b.hbs"] :=
    templates_listed _ hlocate hroot hfound (by decide) (by decide) hbelow
  have hplain : ∀ file ∈ ["../a/b.hbs", "../b.hbs"], PlainlyBelow ".." file := by
    rw [← hbelow, List.forall_mem_map]
    have hnames : ∀ names ∈ [["a", "b.hbs"], ["b.hbs"]],
        names ≠ [] ∧ ∀ n ∈ names, IsName n ∧ '\\' ∉ n.toList := by decide
    exact fun names hmem => ⟨names, rfl, hnames names hmem⟩
  obtain ⟨hunique, hpopulates⟩ := (plain_files_registered "..").2 t { root := ".." } _ rfl rfl ht
    hdir hfiles hplain {} true
  obtain ⟨c, hpopulate⟩ := hpopulates fun _ _ => ⟨_, hcanonical⟩
  obtain ⟨-, hunique⟩ := hunique c hpopulate
  have hpaths : (logicalPath? ".." "../a/b.hbs").isSome ∧
      (logicalPath? ".." "../b.hbs").isSome := by decide +kernel
  exact ⟨c, hpopulate, hunique _ (by simp) hpaths.1, hunique _ (by simp) hpaths.2⟩

/-- A backslash in a name stands for a step into a directory: of two files that are listed, one
takes the place of the other. -/
theorem backslash_file_replaces :
    let t : FileTree :=
      ⟨.dir [("views", .dir [("a", .dir [("b.hbs", .file [])]), ("a\\b.hbs", .file [])])], []⟩
    t.root.WellNamed ∧ t.isDir "views" ∧
      listMatching t "views" "*.hbs" = .ok ["views/a/b.hbs", "views/a\\b.hbs"] ∧
      logicalPath? "views" "views/a/b.hbs" = some "/a/b.hbs" ∧
      logicalPath? "views" "views/a\\b.hbs" = some "/a/b.hbs" ∧
      ∃ c, populate t {} {} false = .ok c ∧
        ∀ source ∈ c.registry.sources.values, source.file? ≠ some "views/a/b.hbs" := by
  intro t
  have ht : t.root.WellNamed := FileNode.wellNamed_of_hasNames (by decide)
  have hviews : t.root.get? ["views"] = some
      (.dir [("a", .dir [("b.hbs", .file [])]), ("a\\b.hbs", .file [])]) := rfl
  have ha : t.root.get? ["views", "a"] = some (.dir [("b.hbs", .file [])]) := rfl
  obtain ⟨hlocate, -⟩ : t.locate "views" = .ok ["views"] ∧ t.canonicalize "views" = .ok ["views"] :=
    FileTree.resolved_name (by decide) (by decide) (by decide) (by decide) rfl rfl (by simp)
  have hlocate₁ : t.locate (join "views" "a") = .ok ["views", "a"] :=
    FileTree.locate_join_of_child hlocate (by decide) (by decide) (by decide) hviews rfl (by simp)
  have hfuel : t.root.count * t.root.count + t.root.count = 29 + 1 := by decide
  have hfound : t.filesBelow (t.root.count * t.root.count + t.root.count + 1) "views" [] ["views"] =
      .ok [["a", "b.hbs"], ["a\\b.hbs"]] := by
    rw [hfuel, FileTree.filesBelow, hviews]
    simp only [List.mapM_cons, FileTree.filesAt_dir, hlocate₁]
    rfl
  obtain ⟨hdir, hfiles⟩ : t.isDir "views" ∧
      listMatching t "views" "*.hbs" = .ok ["views/a/b.hbs", "views/a\\b.hbs"] :=
    templates_listed _ hlocate hviews hfound (by decide) (by decide) (by decide)
  have hpaths : logicalPath? "views" "views/a/b.hbs" = some "/a/b.hbs" ∧
      logicalPath? "views" "views/a\\b.hbs" = some "/a/b.hbs" := by decide +kernel
  refine ⟨ht, hdir, hfiles, hpaths.1, hpaths.2, ?_⟩
  let first : Catalogue := (register {} ⟨"/a/b.hbs", .file "views/a/b.hbs" none⟩).2
  let second : Catalogue := (first.register ⟨"/a/b.hbs", .file "views/a\\b.hbs" none⟩).2
  have hfirst : addFile t "views" false {} "views/a/b.hbs" = .ok first :=
    addFile_eq_ok_iff.mpr (.unwatched hpaths.1 rfl)
  have hsecond : addFile t "views" false first "views/a\\b.hbs" = .ok second :=
    addFile_eq_ok_iff.mpr (.unwatched hpaths.2 rfl)
  have hfold : ["views/a/b.hbs", "views/a\\b.hbs"].foldlM (addFile t "views" false) {} =
      .ok second := by
    simp only [List.foldlM_cons, List.foldlM_nil, hfirst, hsecond, Except.ok_bind]
    rfl
  have hpopulate : populate t {} {} false = .ok second :=
    populate_eq_ok_iff.mpr ⟨_, second, (if_pos hdir).mpr hfiles, hfold, rfl⟩
  exact ⟨second, hpopulate, by decide⟩

end Catalogue

end CompiledViews
