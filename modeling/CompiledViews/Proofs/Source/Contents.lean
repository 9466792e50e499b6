import CompiledViews.Proofs.Source.Registration

/-! What a populated registry holds. Under a path stands what the configuration has under the last
of the names that spell it, or else the last of the files listed that have it as logical path. -/

namespace CompiledViews

open CompiledViews.Path

/-- A source is what the templates in the configuration and the files listed come to under a key.
Opened, it yields what the template is composed to, or the bytes that the file has by then. -/
inductive Sources.Yields (s : Sources) (g : Generation) (files : List String) (key : String)
    (source : Source) : Prop
  | template {name : String} {template : InlineTemplate}
      (hname : s.templates.get? name = some template) (hspells : normalizeLogical name = key)
      (hlast : ∀ other ∈ s.templates.keys, normalizeLogical other = key → other ≤ name)
      (hvirtual : source.isPhysical = false)
      (hopen : ∀ now : FileTree,
        source.open_ now = .ok (.text (g.compose template.model template.body)))
  | file {front back : List String} {file : String}
      (hunnamed : ∀ name ∈ s.templates.keys, normalizeLogical name ≠ key)
      (hfiles : files = front ++ file :: back) (hpath : logicalPath? s.root file = some key)
      (hlast : ∀ later ∈ back, logicalPath? s.root later ≠ some key)
      (hphysical : source.file? = some file)
      (hopen : ∀ (now : FileTree) (bytes : List UInt8),
        source.open_ now = .ok (.stream bytes none) ↔ now.read file = .ok bytes)

namespace Sources.Yields

variable {s : Sources} {g : Generation} {files : List String} {key : String} {source : Source}

/-- Under a key that names spell stands the template of the last of them. -/
theorem open_template (h : s.Yields g files key source) {name : String} {template : InlineTemplate}
    (hname : s.templates.get? name = some template) (hspells : normalizeLogical name = key)
    (hlast : ∀ other ∈ s.templates.keys, normalizeLogical other = key → other ≤ name)
    (now : FileTree) : source.open_ now = .ok (.text (g.compose template.model template.body)) := by
  have hmem : name ∈ s.templates.keys := (Table.mem_keys_iff ..).mpr ⟨template, hname⟩
  cases h with
  | @template name' template' hname' hspells' hlast' _ hopen =>
    have hmem' : name' ∈ s.templates.keys := (Table.mem_keys_iff ..).mpr ⟨template', hname'⟩
    obtain rfl : name' = name :=
      String.le_antisymm (hlast name' hmem' hspells') (hlast' name hmem hspells)
    obtain rfl := Option.some.inj (hname'.symm.trans hname)
    exact hopen now
  | file hunnamed => exact absurd hspells (hunnamed name hmem)

/-- Under a key that no name spells stands a file, if there is only one with this logical path. -/
theorem open_file (h : s.Yields g files key source)
    (hunnamed : ∀ name ∈ s.templates.keys, normalizeLogical name ≠ key) {file : String}
    (hunique : ∀ file' ∈ files, logicalPath? s.root file' = some key → file' = file)
    (now : FileTree) (bytes : List UInt8) :
    source.open_ now = .ok (.stream bytes none) ↔ now.read file = .ok bytes := by
  cases h with
  | @template name _ hname hspells =>
    exact absurd hspells (hunnamed name ((Table.mem_keys_iff ..).mpr ⟨_, hname⟩))
  | @file front back file' _ hfiles hpath _ _ hopen =>
    obtain rfl := hunique file' (hfiles ▸ by simp) hpath
    exact hopen now bytes

/-- Under a key that a name spells stands no file. -/
lemma file?_eq_none (h : s.Yields g files key source)
    (hnamed : ∃ name ∈ s.templates.keys, normalizeLogical name = key) : source.file? = none := by
  cases h with
  | template _ _ _ hvirtual => simpa [Source.isPhysical] using hvirtual
  | file hunnamed =>
    obtain ⟨name, hname, hspells⟩ := hnamed
    exact absurd hspells (hunnamed name hname)

/-- Under any other key stands a file with this logical path. -/
lemma exists_file (h : s.Yields g files key source)
    (hunnamed : ∀ name ∈ s.templates.keys, normalizeLogical name ≠ key) :
    ∃ file ∈ files, logicalPath? s.root file = some key ∧ source.file? = some file := by
  cases h with
  | @template name _ hname hspells =>
    exact absurd hspells (hunnamed name ((Table.mem_keys_iff ..).mpr ⟨_, hname⟩))
  | @file front back file _ hfiles hpath _ hphysical =>
    exact ⟨file, hfiles ▸ by simp, hpath, hphysical⟩

end Sources.Yields

namespace Registry

/-- A registry has a source for each logical path of the files and each name in the configuration,
under one key however the path is spelled. -/
structure Tabulates (r : Registry) (s : Sources) (g : Generation) (files : List String) : Prop where
  ordered : r.paths.Pairwise (· < ·)
  mem_paths_iff : ∀ key, key ∈ r.paths ↔ (∃ file ∈ files, logicalPath? s.root file = some key) ∨
    ∃ name ∈ s.templates.keys, normalizeLogical name = key
  canonical : ∀ key ∈ r.paths, normalizeLogical key = key
  lookup_congr : ∀ path path', normalizeLogical path = normalizeLogical path' →
    r.lookup path = r.lookup path'
  contains_iff : ∀ path, r.contains path = true ↔ normalizeLogical path ∈ r.paths
  lookup_isSome_iff : ∀ path, (r.lookup path).isSome = true ↔ normalizeLogical path ∈ r.paths
  yields : ∀ path source, r.lookup path = some source →
    source.path = normalizeLogical path ∧ s.Yields g files (normalizeLogical path) source

theorem lookup_isSome_iff_mem_paths (r : Registry) (path : String) :
    (r.lookup path).isSome = true ↔ normalizeLogical path ∈ r.paths := by
  rw [Option.isSome_iff_exists]
  exact (r.sources.mem_keys_iff _).symm

end Registry

namespace Source

theorem open_file_eq_ok_iff {path file : String} {subscription : Option Watch.Subscription}
    {now : FileTree} {bytes : List UInt8} :
    open_ now ⟨path, .file file subscription⟩ = .ok (.stream bytes none) ↔
      now.read file = .ok bytes := by
  show (now.find file >>= _) = _ ↔ (now.find file >>= _) = _
  cases now.find file with
  | error e => simp [bind, Except.bind]
  | ok found => cases found <;> simp [pure, Except.pure, throw, throwThe, MonadExceptOf.throw]

/-- The source of a file yields the bytes that the file has when it is opened. -/
theorem IsOf.open_eq_ok_iff {root file : String} {watched : Bool} {s : Source}
    (h : s.IsOf root watched file) (now : FileTree) (bytes : List UInt8) :
    s.open_ now = .ok (.stream bytes none) ↔ now.read file = .ok bytes := by
  obtain ⟨subscription, hplace, -⟩ := h.place
  obtain ⟨path, place⟩ := s
  obtain rfl : place = .file file subscription := hplace
  exact open_file_eq_ok_iff

lemma IsOf.file?_eq {root file : String} {watched : Bool} {s : Source}
    (h : s.IsOf root watched file) : s.file? = some file := by
  obtain ⟨subscription, hplace, -⟩ := h.place
  rw [Source.file?, hplace]

end Source

namespace Catalogue

variable {t : FileTree} {s : Sources} {g : Generation} {watched : Bool}
  {files : List String} {sources : List Source}

/-- The sources of files have the logical paths of the files. -/
lemma exists_source_path_iff
    (h : List.Forall₂ (Source.IsOf s.root watched)
      (files.filter fun file => (logicalPath? s.root file).isSome) sources) (key : String) :
    (∃ source ∈ sources, normalizeLogical source.path = key) ↔
      ∃ file ∈ files, logicalPath? s.root file = some key := by
  constructor
  · rintro ⟨source, hsource, rfl⟩
    obtain ⟨file, hfile, hof⟩ := exists_of_mem_right h source hsource
    refine ⟨file, List.mem_of_mem_filter hfile, ?_⟩
    rw [hof.path, normalizeLogical_of_logicalPath? hof.path]
  · rintro ⟨file, hfile, hpath⟩
    obtain ⟨source, hsource, hof⟩ := exists_of_mem_left h file
      (List.mem_filter.mpr ⟨hfile, by rw [hpath]; rfl⟩)
    obtain rfl : source.path = key := Option.some.inj (hof.path.symm.trans hpath)
    exact ⟨source, hsource, normalizeLogical_of_logicalPath? hpath⟩

/-- The last name in the configuration that spells a path gives the source under it. -/
theorem exists_yields_of_name (files : List String) (sources : List Source) {path : String}
    (h : ∃ name ∈ s.templates.keys, normalizeLogical name = normalizeLogical path) :
    ∃ source, (({} : Registry).registerAll
        (sources ++ s.templates.rows.map (inlineSource g))).lookup path = some source ∧
      source.path = normalizeLogical path ∧
      s.Yields g files (normalizeLogical path) source := by
  have hnamed : ∃ row ∈ s.templates.rows, normalizeLogical row.1 = normalizeLogical path := by
    obtain ⟨name, hname, hspells⟩ := h
    obtain ⟨row, hrow, rfl⟩ := List.mem_map.mp hname
    exact ⟨row, hrow, hspells⟩
  obtain ⟨front, last, back, hrows, hspells, hlast⟩ := exists_last hnamed
  refine ⟨inlineSource g last, ?_, hspells, .template ?_ hspells ?_ rfl fun _ => rfl⟩
  · rw [hrows, List.map_append, List.map_cons, ← List.append_assoc]
    apply Registry.lookup_registerAll_eq_some
    · exact hspells.symm.trans (normalizeLogical_normalizeLogical _).symm
    · intro later hlater hsame
      obtain ⟨row, hrow, rfl⟩ := List.mem_map.mp hlater
      exact hlast row hrow (hsame.trans (normalizeLogical_normalizeLogical _)).symm
  · rw [Table.get?_eq_some_iff, hrows]
    exact List.mem_append_right _ List.mem_cons_self
  · -- the names go up, so the last row that spells the path has the greatest
    intro other hother hspells'
    obtain ⟨row, hrow, rfl⟩ := List.mem_map.mp hother
    have hordered := s.templates.ordered
    rw [Table.Ordered, hrows, List.pairwise_append] at hordered
    rw [hrows, List.mem_append, List.mem_cons] at hrow
    rcases hrow with hfront | rfl | hback
    · exact String.not_lt.mp (String.lt_asymm (hordered.2.2 row hfront last List.mem_cons_self))
    · exact String.le_refl _
    · exact absurd hspells' (hlast row hback)

/-- If no name in the configuration spells a path, the last file with it as logical path gives the
source under it. -/
theorem exists_yields_of_file
    (hsources : List.Forall₂ (Source.IsOf s.root watched)
      (files.filter fun file => (logicalPath? s.root file).isSome) sources) {path : String}
    (hunnamed : ∀ name ∈ s.templates.keys, normalizeLogical name ≠ normalizeLogical path)
    (h : ∃ file ∈ files, logicalPath? s.root file = some (normalizeLogical path)) :
    ∃ source, (({} : Registry).registerAll
        (sources ++ s.templates.rows.map (inlineSource g))).lookup path = some source ∧
      source.path = normalizeLogical path ∧
      s.Yields g files (normalizeLogical path) source := by
  obtain ⟨front, file, back, rfl, hpath, hlast⟩ := exists_last h
  rw [List.filter_append, List.filter_cons_of_pos (by simp [hpath])] at hsources
  obtain ⟨before, source, after, rfl, -, hof, hafter⟩ := exists_append_cons_of_forall₂ hsources
  have hkey : source.path = normalizeLogical path := Option.some.inj (hof.path.symm.trans hpath)
  refine ⟨source, ?_, hkey, .file hunnamed rfl hpath hlast hof.file?_eq hof.open_eq_ok_iff⟩
  rw [List.append_assoc, List.cons_append]
  apply Registry.lookup_registerAll_eq_some
  · rw [hkey, normalizeLogical_normalizeLogical]
  · intro later hlater hsame
    rcases List.mem_append.mp hlater with hfile | htemplate
    · obtain ⟨file', hfile', hof'⟩ := exists_of_mem_right hafter later hfile
      refine hlast file' (List.mem_of_mem_filter hfile') ?_
      rw [hof'.path, hsame, normalizeLogical_of_logicalPath? hof'.path]
    · obtain ⟨row, hrow, rfl⟩ := List.mem_map.mp htemplate
      refine hunnamed row.1 (List.mem_map_of_mem hrow) ?_
      exact (hsame.trans (normalizeLogical_normalizeLogical _)).symm

theorem tabulates_registerAll
    (hsources : List.Forall₂ (Source.IsOf s.root watched)
      (files.filter fun file => (logicalPath? s.root file).isSome) sources) :
    (({} : Registry).registerAll
      (sources ++ s.templates.rows.map (inlineSource g))).Tabulates s g files := by
  have hpaths : ∀ key, key ∈ (({} : Registry).registerAll
      (sources ++ s.templates.rows.map (inlineSource g))).paths ↔
      (∃ file ∈ files, logicalPath? s.root file = some key) ∨
        ∃ name ∈ s.templates.keys, normalizeLogical name = key := by
    intro key
    have hnone : key ∉ ({} : Registry).paths := List.not_mem_nil
    have hnames : (∃ source ∈ s.templates.rows.map (inlineSource g),
        normalizeLogical source.path = key) ↔
        ∃ name ∈ s.templates.keys, normalizeLogical name = key := by
      simp [Table.keys, inlineSource]
    rw [Registry.mem_paths_registerAll, or_iff_right hnone, ← exists_source_path_iff hsources,
      ← hnames]
    simp only [List.mem_append, or_and_right, exists_or]
  constructor
  case ordered => exact Table.keys_ordered _
  case mem_paths_iff => exact hpaths
  case canonical =>
    intro key hkey
    rcases (hpaths key).mp hkey with ⟨file, -, hpath⟩ | ⟨name, -, rfl⟩
    · exact normalizeLogical_of_logicalPath? hpath
    · exact normalizeLogical_normalizeLogical name
  case lookup_congr =>
    intro path path' hsame
    rw [Registry.lookup, hsame, Registry.lookup]
  case contains_iff => exact Registry.lookup_isSome_iff_mem_paths _
  case lookup_isSome_iff => exact Registry.lookup_isSome_iff_mem_paths _
  case yields =>
    intro path source hlookup
    have hmem := (Registry.lookup_isSome_iff_mem_paths _ path).mp (by rw [hlookup]; rfl)
    have hyields : ∃ source, (({} : Registry).registerAll
        (sources ++ s.templates.rows.map (inlineSource g))).lookup path = some source ∧
        source.path = normalizeLogical path ∧
        s.Yields g files (normalizeLogical path) source := by
      by_cases hnamed : ∃ name ∈ s.templates.keys, normalizeLogical name = normalizeLogical path
      · exact exists_yields_of_name files sources hnamed
      · have hfile := ((hpaths _).mp hmem).resolve_right hnamed
        exact exists_yields_of_file hsources (fun name hn he => hnamed ⟨name, hn, he⟩) hfile
    obtain ⟨source', hlookup', hyields⟩ := hyields
    obtain rfl := Option.some.inj (hlookup.symm.trans hlookup')
    exact hyields

theorem tabulates_of_populate {c : Catalogue} (hpopulate : populate t s g watched = .ok c)
    (hfiles : Finds t s files) : c.registry.Tabulates s g files := by
  obtain ⟨found, sources, hfinds, hsources, hregistry⟩ := registry_populate hpopulate
  obtain rfl := hfinds.unique hfiles
  exact hregistry ▸ tabulates_registerAll hsources

/-- A registry that was populated tabulates the files that were listed and the templates in the
configuration. If the directory of templates is not there, populating succeeds with the templates in
the configuration alone. -/
theorem populate_tabulates (t : FileTree) (s : Sources) (g : Generation)
    (watched : Bool) :
    (∀ c, populate t s g watched = .ok c →
      ∃ files, Finds t s files ∧ c.registry.Tabulates s g files) ∧
    (t.isDir s.root = false →
      ∃ c, populate t s g watched = .ok c ∧ c.registry.Tabulates s g []) := by
  constructor
  · intro c hpopulate
    obtain ⟨files, -, hfinds, -⟩ := populate_eq_ok_iff.mp hpopulate
    exact ⟨files, hfinds, tabulates_of_populate hpopulate hfinds⟩
  · intro hdir
    have hfinds : Finds t s [] := by simp [Finds, hdir]
    have hpopulate : populate t s g watched = .ok _ :=
      populate_eq_ok_iff.mpr ⟨[], {}, hfinds, rfl, rfl⟩
    exact ⟨_, hpopulate, tabulates_of_populate hpopulate hfinds⟩

/-- Of two names for one path the greater one counts, and a file with this logical path does not.
The directory is not there under its name alone. -/
theorem populate_tabulates_names :
    let t : FileTree :=
      ⟨.dir [("views", .dir [("x.hbs", .file [65]), ("y.hbs", .file [66])]), ("w", .dir [])], ["w"]⟩
    let s : Sources :=
      { root := "/views"
        templates := Table.ofRows [("/x.hbs", ⟨"a", none⟩), ("x.hbs", ⟨"b", none⟩)] }
    (∃ c, populate t s {} true = .ok c ∧
      (∀ key, key ∈ c.registry.paths ↔ key = "/x.hbs" ∨ key = "/y.hbs") ∧
      (∃ source, c.registry.lookup "./x.hbs" = some source ∧
        ∀ now, source.open_ now = .ok (.text (({} : Generation).compose none "b"))) ∧
      ∃ source, c.registry.lookup "y.hbs" = some source ∧ ∀ now bytes,
        source.open_ now = .ok (.stream bytes none) ↔ now.read "/views/y.hbs" = .ok bytes) ∧
    ∃ c, populate t { s with root := "views" } {} true = .ok c ∧
      ∀ key, key ∈ c.registry.paths ↔ key = "/x.hbs" := by
  intro t s
  have ht : t.root.WellNamed := FileNode.wellNamed_of_hasNames (by decide)
  have hroot : t.root.get? [] = some t.root := rfl
  have hshort : Text.Utf8.size "views" ≤ FileNode.maxNameBytes := by decide
  obtain ⟨hlocate, hcanonical⟩ :
      t.locate "/views" = .ok ["views"] ∧ t.canonicalize "/views" = .ok ["views"] :=
    FileTree.resolved_of_leads [.root, .name "views"] (by decide) (by decide)
      (.root (.name (by decide) hroot hshort rfl (by simp) .stay)) (by decide)
  obtain ⟨hdir, hfiles⟩ : t.isDir "/views" ∧
      listMatching t "/views" "*.hbs" = .ok ["/views/x.hbs", "/views/y.hbs"] :=
    templates_listed [["x.hbs"], ["y.hbs"]] hlocate rfl (by rfl) (by decide) (by decide) (by decide)
  have hrows : s.templates.rows = [("/x.hbs", ⟨"a", none⟩), ("x.hbs", ⟨"b", none⟩)] := by
    decide
  have hkeys : s.templates.keys = ["/x.hbs", "x.hbs"] := by rw [Table.keys, hrows]; rfl
  have hnames : normalizeLogical "/x.hbs" = "/x.hbs" ∧ normalizeLogical "x.hbs" = "/x.hbs" ∧
      normalizeLogical "./x.hbs" = "/x.hbs" ∧ normalizeLogical "y.hbs" = "/y.hbs" := by
    decide +kernel
  have hpaths : logicalPath? "/views" "/views/x.hbs" = some "/x.hbs" ∧
      logicalPath? "/views" "/views/y.hbs" = some "/y.hbs" := by decide +kernel
  constructor
  · obtain ⟨c, hpopulate⟩ : ∃ c, populate t s {} true = .ok c :=
      exists_populate {} ht hdir hfiles fun _ _ => ⟨_, hcanonical⟩
    obtain ⟨files, hfinds, htab⟩ := (populate_tabulates t s {} true).1 c hpopulate
    rw [Finds, if_pos hdir] at hfinds
    obtain rfl := Except.ok.inj (hfinds.symm.trans hfiles)
    have hmem : ∀ key, key ∈ c.registry.paths ↔ key = "/x.hbs" ∨ key = "/y.hbs" := by
      intro key
      rw [htab.mem_paths_iff, hkeys]
      simp only [List.exists_mem_cons_iff]
      simp [hnames, show s.root = "/views" from rfl, hpaths, eq_comm, or_comm]
    refine ⟨c, hpopulate, hmem, ?_, ?_⟩
    · obtain ⟨source, hlookup⟩ := Option.isSome_iff_exists.mp
        ((htab.lookup_isSome_iff "./x.hbs").mpr (by simp [hmem, hnames]))
      obtain ⟨-, hyields⟩ := htab.yields _ source hlookup
      have hname : s.templates.get? "x.hbs" = some ⟨"b", none⟩ := by decide
      refine ⟨source, hlookup, hyields.open_template hname ?_ ?_⟩
      · rw [hnames.2.1, hnames.2.2.1]
      · rw [hkeys]
        decide
    · obtain ⟨source, hlookup⟩ := Option.isSome_iff_exists.mp
        ((htab.lookup_isSome_iff "y.hbs").mpr (by simp [hmem, hnames]))
      obtain ⟨-, hyields⟩ := htab.yields _ source hlookup
      refine ⟨source, hlookup, hyields.open_file ?_ ?_⟩
      · rw [hkeys]
        decide +kernel
      · decide +kernel
  · have hmissing : t.isDir "views" = false :=
      FileTree.isDir_name_of_no_child (by decide) rfl rfl
    obtain ⟨c, hpopulate, htab⟩ :=
      (populate_tabulates t { s with root := "views" } {} true).2 hmissing
    refine ⟨c, hpopulate, fun key => ?_⟩
    rw [htab.mem_paths_iff, hkeys]
    simp [hnames, eq_comm]

end Catalogue

end CompiledViews
