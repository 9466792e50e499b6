import CompiledViews.Proofs.Files.Discovery
import CompiledViews.Proofs.List
import CompiledViews.Proofs.Table
import CompiledViews.Proofs.Watch.Pool
import CompiledViews.Source.Registry

/-! Populating a registry. Each file that is found below the directory of templates is registered,
and after the files each template in the configuration; of the sources registered under one path
the last one stays. -/

namespace CompiledViews

open CompiledViews.Path

namespace Registry

/-- Registers sources one after the other. -/
def registerAll (r : Registry) (sources : List Source) : Registry :=
  sources.foldl (fun r s => (r.register s).2) r

lemma registerAll_append (r : Registry) (ss ss' : List Source) :
    r.registerAll (ss ++ ss') = (r.registerAll ss).registerAll ss' := List.foldl_append

theorem lookup_register (r : Registry) (s : Source) (path : String) :
    (r.register s).2.lookup path =
      if normalizeLogical path = normalizeLogical s.path then some s else r.lookup path :=
  Table.get?_insert ..

/-- Under a path stands the last source registered under it. -/
theorem lookup_registerAll (r : Registry) (sources : List Source) (path : String) :
    (r.registerAll sources).lookup path =
      (sources.reverse.find? fun s => normalizeLogical path = normalizeLogical s.path).or
        (r.lookup path) := by
  induction sources generalizing r with
  | nil => rfl
  | cons s sources ih =>
    rw [show r.registerAll (s :: sources) = (r.register s).2.registerAll sources from rfl, ih,
      lookup_register, List.reverse_cons, List.find?_append, Option.or_assoc]
    by_cases h : normalizeLogical path = normalizeLogical s.path <;> simp [h]

/-- A source stands under a path if it is the last one registered under it. -/
theorem lookup_registerAll_eq_some {front back : List Source} {s : Source} {path : String}
    (hpath : normalizeLogical path = normalizeLogical s.path)
    (hlast : ∀ later ∈ back, normalizeLogical path ≠ normalizeLogical later.path) (r : Registry) :
    (r.registerAll (front ++ s :: back)).lookup path = some s := by
  have hfound : (front ++ s :: back).reverse.find? (fun s =>
      normalizeLogical path = normalizeLogical s.path) = some s := by
    refine List.find?_eq_some_iff_append.mpr ⟨by simpa using hpath, back.reverse, front.reverse,
      by simp, fun later hlater => ?_⟩
    simpa using hlast later (List.mem_reverse.mp hlater)
  rw [lookup_registerAll, hfound, Option.some_or]

theorem mem_paths_registerAll (r : Registry) (sources : List Source) (key : String) :
    key ∈ (r.registerAll sources).paths ↔
      key ∈ r.paths ∨ ∃ s ∈ sources, normalizeLogical s.path = key := by
  induction sources generalizing r with
  | nil => simp [registerAll]
  | cons s sources ih =>
    rw [show r.registerAll (s :: sources) = (r.register s).2.registerAll sources from rfl, ih,
      show (r.register s).2.paths = (r.sources.insert (normalizeLogical s.path) s).keys from rfl,
      Table.mem_keys_insert, List.exists_mem_cons_iff, or_assoc, eq_comm, or_left_comm]
    rfl

/-- Each source stands under the canonical spelling of its path. -/
def Keyed (r : Registry) : Prop :=
  ∀ key s, r.sources.get? key = some s → key = normalizeLogical s.path

lemma keyed_empty : ({} : Registry).Keyed := fun _ _ h => nomatch h

lemma Keyed.register {r : Registry} (h : r.Keyed) (s : Source) : (r.register s).2.Keyed := by
  intro key s' hget
  rw [show (r.register s).2.sources = r.sources.insert (normalizeLogical s.path) s from rfl,
    Table.get?_insert] at hget
  split at hget
  case isTrue hkey =>
    obtain rfl := Option.some.inj hget
    exact hkey
  case isFalse => exact h key s' hget

theorem Keyed.registerAll {r : Registry} (h : r.Keyed) (sources : List Source) :
    (r.registerAll sources).Keyed := by
  induction sources generalizing r with
  | nil => exact h
  | cons s sources ih => exact ih (h.register s)

/-- The sources of a registry are those that are found under their paths. -/
theorem Keyed.mem_values_iff {r : Registry} (h : r.Keyed) (s : Source) :
    s ∈ r.sources.values ↔ r.lookup s.path = some s := by
  rw [Table.mem_values_iff]
  constructor
  · rintro ⟨key, hget⟩
    rw [lookup, ← h key s hget, hget]
  · exact fun hlookup => ⟨_, hlookup⟩

/-- Of sources with canonical paths, each is registered or replaced by one with the same path. -/
theorem exists_lookup_registerAll (r : Registry) {sources : List Source}
    (hcanonical : ∀ s ∈ sources, normalizeLogical s.path = s.path) {s : Source}
    (hs : s ∈ sources) :
    ∃ s' ∈ sources, s'.path = s.path ∧ (r.registerAll sources).lookup s.path = some s' := by
  have hfound : (sources.reverse.find? fun s' =>
      normalizeLogical s.path = normalizeLogical s'.path).isSome := by
    rw [List.find?_isSome]
    exact ⟨s, List.mem_reverse.mpr hs, by simp⟩
  obtain ⟨s', hs'⟩ := Option.isSome_iff_exists.mp hfound
  have hmem : s' ∈ sources := List.mem_reverse.mp (List.mem_of_find?_eq_some hs')
  have hkey : normalizeLogical s.path = normalizeLogical s'.path := by
    simpa using List.find?_some hs'
  rw [hcanonical s hs, hcanonical s' hmem] at hkey
  exact ⟨s', hmem, hkey.symm, by rw [lookup_registerAll, hs', Option.some_or]⟩

end Registry

namespace Source

/-- A source that is made from a file below a directory, watched or not. -/
structure IsOf (root : String) (watched : Bool) (file : String) (s : Source) : Prop where
  path : logicalPath? root file = some s.path
  place : ∃ subscription, s.place = .file file subscription ∧ subscription.isSome = watched

end Source

namespace Catalogue

variable {t : FileTree} {root : String} {watched : Bool}

/-- The source that is made from a template in the configuration. -/
def inlineSource (g : Generation) (row : String × InlineTemplate) : Source :=
  ⟨normalizeLogical row.1, .memory (g.compose row.2.model row.2.body)⟩

/-- What adding a file to a catalogue comes to when it succeeds. -/
inductive Adds (t : FileTree) (root : String) (watched : Bool) (c : Catalogue)
    (file : String) : Catalogue → Prop
  | passed (hpath : logicalPath? root file = none) : Adds t root watched c file c
  | unwatched {path : String} (hpath : logicalPath? root file = some path)
      (hwatched : watched = false) :
      Adds t root watched c file (c.register ⟨path, .file file none⟩).2
  | watched {path : String} {subscription : Watch.Subscription} {pool : Watch.Pool Unit}
      (hpath : logicalPath? root file = some path) (hwatched : watched = true)
      (hwatch : c.pool.watch t root file path () = .ok (subscription, pool)) :
      Adds t root watched c file
        (register { c with pool := pool } ⟨path, .file file (some subscription)⟩).2

theorem addFile_eq_ok_iff {c c' : Catalogue} {file : String} :
    addFile t root watched c file = .ok c' ↔ Adds t root watched c file c' := by
  constructor
  · intro h
    unfold addFile at h
    split at h
    case h_1 hpath =>
      obtain rfl := Except.ok.inj h
      exact .passed hpath
    case h_2 path hpath =>
      cases watched with
      | false =>
        obtain rfl := Except.ok.inj h
        exact .unwatched hpath rfl
      | true =>
        obtain ⟨⟨subscription, pool⟩, hwatch, hadded⟩ := Except.bind_eq_ok_iff.mp h
        obtain rfl := Except.ok.inj hadded
        exact .watched hpath rfl (Except.mapError_eq_ok_iff.mp hwatch)
  · intro h
    unfold addFile
    cases h with
    | passed hpath => simp only [hpath]
    | unwatched hpath hwatched => simp [hpath, hwatched, pure, Except.pure]
    | watched hpath hwatched hwatch =>
      simp only [hpath, hwatched, hwatch]
      rfl

/-- A file with a logical path is registered under it, any other is passed over. -/
theorem Adds.registry_eq {c c' : Catalogue} {file : String}
    (h : Adds t root watched c file c') :
    logicalPath? root file = none ∧ c'.registry = c.registry ∨
      ∃ s, s.IsOf root watched file ∧ c'.registry = (c.registry.register s).2 := by
  cases h with
  | passed hpath => exact .inl ⟨hpath, rfl⟩
  | @unwatched path hpath hwatched =>
    exact .inr ⟨⟨path, .file file none⟩, ⟨hpath, none, rfl, hwatched.symm⟩, rfl⟩
  | @watched path subscription pool hpath hwatched hwatch =>
    exact .inr ⟨⟨path, .file file (some subscription)⟩,
      ⟨hpath, some subscription, rfl, hwatched.symm⟩, rfl⟩

/-- A file below a directory can be added, if the directory has a path from the root when it is to
be watched. -/
theorem exists_adds (hroot : watched = true → ∃ location, t.canonicalize root = .ok location)
    {names : List String} (hnames : ∀ n ∈ names, IsName n) (c : Catalogue) :
    ∃ c', Adds t root watched c (pathBelow root names) c' := by
  cases hpath : logicalPath? root (pathBelow root names) with
  | none => exact ⟨c, .passed hpath⟩
  | some path =>
    cases watched with
    | false => exact ⟨_, .unwatched hpath rfl⟩
    | true =>
      obtain ⟨location, hlocation⟩ := hroot rfl
      obtain ⟨subscription, pool, hwatch⟩ := c.pool.watch_pathBelow hlocation hnames path ()
      exact ⟨_, .watched hpath rfl hwatch⟩

theorem exists_foldlM_addFile {files : List String}
    (hroot : watched = true → files ≠ [] → ∃ location, t.canonicalize root = .ok location)
    (hfiles : ∀ file ∈ files, ∃ names, file = pathBelow root names ∧ names ≠ [] ∧
      ∀ n ∈ names, IsName n) (c : Catalogue) :
    ∃ c', files.foldlM (addFile t root watched) c = .ok c' := by
  induction files generalizing c with
  | nil => exact ⟨c, rfl⟩
  | cons file files ih =>
    rw [List.forall_mem_cons] at hfiles
    obtain ⟨⟨names, rfl, -, hnames⟩, hrest⟩ := hfiles
    have hlocation := fun hwatched => hroot hwatched (List.cons_ne_nil _ _)
    obtain ⟨c₁, hadds⟩ := exists_adds hlocation hnames c
    obtain ⟨c₂, hfold⟩ := ih (fun hwatched _ => hlocation hwatched) hrest c₁
    refine ⟨c₂, ?_⟩
    rw [List.foldlM_cons, addFile_eq_ok_iff.mpr hadds]
    exact hfold

/-- The files with a logical path are registered one after the other. -/
theorem registry_foldlM_addFile {files : List String} {c c' : Catalogue}
    (h : files.foldlM (addFile t root watched) c = .ok c') :
    ∃ sources, List.Forall₂ (Source.IsOf root watched)
        (files.filter fun file => (logicalPath? root file).isSome) sources ∧
      c'.registry = c.registry.registerAll sources := by
  induction files generalizing c with
  | nil =>
    obtain rfl := Except.ok.inj h
    exact ⟨[], .nil, rfl⟩
  | cons file files ih =>
    rw [List.foldlM_cons] at h
    obtain ⟨c₁, hadd, hfold⟩ := Except.bind_eq_ok_iff.mp h
    obtain ⟨sources, hsources, hregistry⟩ := ih hfold
    rcases (addFile_eq_ok_iff.mp hadd).registry_eq with ⟨hpath, hsame⟩ | ⟨s, hs, hadded⟩
    · refine ⟨sources, ?_, hsame ▸ hregistry⟩
      rwa [List.filter_cons_of_neg (by simp [hpath])]
    · refine ⟨s :: sources, ?_, by rw [hregistry, hadded]; rfl⟩
      rw [List.filter_cons_of_pos (by simp [hs.path])]
      exact .cons hs hsources

theorem registry_foldl_addInline (g : Generation) (rows : List (String × InlineTemplate))
    (c : Catalogue) :
    (rows.foldl (fun c (name, t) => c.addInline g name t) c).registry =
      c.registry.registerAll (rows.map (inlineSource g)) := by
  induction rows generalizing c with
  | nil => rfl
  | cons row rows ih =>
    rw [List.foldl_cons, ih]
    rfl

/-- The files that populating goes through: those that are listed if the directory is there. -/
def Finds (t : FileTree) (s : Sources) (files : List String) : Prop :=
  if t.isDir s.root then listMatching t s.root s.pattern = .ok files else files = []

lemma Finds.unique {s : Sources} {files files' : List String} (h : Finds t s files)
    (h' : Finds t s files') : files = files' := by
  rw [Finds] at h h'
  split at h
  case isTrue hdir =>
    rw [if_pos hdir, h] at h'
    exact Except.ok.inj h'
  case isFalse hdir =>
    rw [if_neg hdir] at h'
    rw [h, h']

/-- Populating goes through the files and then the templates in the configuration. -/
theorem populate_eq_ok_iff {s : Sources} {g : Generation} {c : Catalogue} :
    populate t s g watched = .ok c ↔ ∃ files c', Finds t s files ∧
      files.foldlM (addFile t s.root watched) {} = .ok c' ∧
      c = s.templates.rows.foldl (fun c (name, t) => c.addInline g name t) c' := by
  have hregister : ∀ files : List String,
      (files.foldlM (addFile t s.root watched) {} >>= fun c =>
        pure (s.templates.rows.foldl (fun c (name, t) => c.addInline g name t) c)) = .ok c ↔
      ∃ c', files.foldlM (addFile t s.root watched) {} = .ok c' ∧
        c = s.templates.rows.foldl (fun c (name, t) => c.addInline g name t) c' := by
    intro files
    rw [Except.bind_eq_ok_iff]
    refine exists_congr fun c' => and_congr_right fun _ => ?_
    exact ⟨fun h => (Except.ok.inj h).symm, fun h => h ▸ rfl⟩
  simp only [Finds, exists_and_left, ← hregister]
  rw [populate]
  split
  case isTrue => simp only [Except.bind_eq_ok_iff, Except.mapError_eq_ok_iff]
  case isFalse =>
    constructor
    · exact fun h => ⟨[], rfl, h⟩
    · rintro ⟨files, rfl, h⟩
      exact h

/-- A source is registered for each file with a logical path, and then one for each template in the
configuration. -/
theorem registry_populate {s : Sources} {g : Generation} {c : Catalogue}
    (h : populate t s g watched = .ok c) :
    ∃ files sources, Finds t s files ∧
      List.Forall₂ (Source.IsOf s.root watched)
        (files.filter fun file => (logicalPath? s.root file).isSome) sources ∧
      c.registry = ({} : Registry).registerAll
        (sources ++ s.templates.rows.map (inlineSource g)) := by
  obtain ⟨files, c', hfinds, hfold, rfl⟩ := populate_eq_ok_iff.mp h
  obtain ⟨sources, hsources, hregistry⟩ := registry_foldlM_addFile hfold
  refine ⟨files, sources, hfinds, hsources, ?_⟩
  rw [registry_foldl_addInline, hregistry, Registry.registerAll_append]

theorem keyed_of_populate {s : Sources} {g : Generation} {c : Catalogue}
    (h : populate t s g watched = .ok c) : c.registry.Keyed := by
  obtain ⟨files, sources, -, -, hregistry⟩ := registry_populate h
  rw [hregistry]
  exact Registry.keyed_empty.registerAll _

/-- Populating succeeds when the files can be listed, and the directory has a path from the root if
files in it are to be watched. -/
theorem exists_populate (g : Generation) {s : Sources} (ht : t.root.WellNamed)
    (hdir : t.isDir s.root) {files : List String}
    (hfiles : listMatching t s.root s.pattern = .ok files)
    (hroot : watched = true → files ≠ [] → ∃ location, t.canonicalize s.root = .ok location) :
    ∃ c, populate t s g watched = .ok c := by
  obtain ⟨c, hfold⟩ := exists_foldlM_addFile hroot (exists_names_of_listMatching ht hfiles) {}
  exact ⟨_, populate_eq_ok_iff.mpr ⟨files, c, by rwa [Finds, if_pos hdir], hfold, rfl⟩⟩

/-- Populating fails with the first file if the directory cannot be watched. -/
theorem populate_eq_error {s : Sources} (g : Generation) {e : SystemError}
    (hroot : t.canonicalize s.root = .error e) (hdir : t.isDir s.root) {file : String}
    {files : List String} (hfiles : listMatching t s.root s.pattern = .ok (file :: files))
    (hpath : (logicalPath? s.root file).isSome) :
    populate t s g true = .error (.watching (.unwatchable s.root e)) := by
  obtain ⟨path, hpath⟩ := Option.isSome_iff_exists.mp hpath
  have hstart : Watch.Watcher.start (α := Unit) t s.root = .error e := by
    rw [Watch.Watcher.start, hroot]
    rfl
  have hwatch : (Watch.Pool.watch {} t s.root file path ()) = .error (.unwatchable s.root e) :=
    Watch.Pool.watch_eq_unwatchable (by simp) hstart
  have hadd : addFile t s.root true {} file = .error (.watching (.unwatchable s.root e)) := by
    unfold addFile
    simp only [hpath, hwatch]
    rfl
  rw [populate, if_pos hdir, hfiles]
  simp only [Except.mapError, Except.ok_bind, List.foldlM_cons, hadd]
  rfl

/-- Each file that is listed has a logical path, unless the directory is by its text where one
is. -/
lemma logicalPath?_isSome_of_listMatching {s : Sources} (hroot : normalize s.root ≠ ".")
    (ht : t.root.WellNamed) {files : List String}
    (hfiles : listMatching t s.root s.pattern = .ok files) :
    ∀ file ∈ files, (logicalPath? s.root file).isSome := by
  intro file hfile
  obtain ⟨names, rfl, hne, hnames⟩ := exists_names_of_listMatching ht hfiles file hfile
  rw [logicalPath?_pathBelow hne hnames, if_neg hroot]
  rfl

/-- A registry that was populated has under the logical path of each file its own source, that of
another file with the same logical path, or that of a template in the configuration. -/
theorem exists_lookup_of_populate {s : Sources} {g : Generation} {c : Catalogue}
    (hpopulate : populate t s g watched = .ok c) {files : List String} (hfiles : Finds t s files)
    {file path : String} (hfile : file ∈ files) (hpath : logicalPath? s.root file = some path) :
    ∃ source, c.registry.lookup path = some source ∧ source.path = path ∧
      ((∃ file' ∈ files, source.IsOf s.root watched file') ∨
        ∃ row ∈ s.templates.rows, source = inlineSource g row) := by
  obtain ⟨found, sources, hfinds, hsources, hregistry⟩ := registry_populate hpopulate
  obtain rfl := hfinds.unique hfiles
  obtain ⟨own, hown, hof⟩ := exists_of_mem_left hsources file
    (List.mem_filter.mpr ⟨hfile, by rw [hpath]; rfl⟩)
  obtain rfl : own.path = path := Option.some.inj (hof.path.symm.trans hpath)
  have hcanonical : ∀ source ∈ sources ++ s.templates.rows.map (inlineSource g),
      normalizeLogical source.path = source.path := by
    rw [List.forall_mem_append, List.forall_mem_map]
    refine ⟨fun source hsource => ?_, fun row _ => normalizeLogical_normalizeLogical _⟩
    obtain ⟨file', -, hof'⟩ := exists_of_mem_right hsources source hsource
    exact normalizeLogical_of_logicalPath? hof'.path
  obtain ⟨source, hsource, hsame, hlookup⟩ := Registry.exists_lookup_registerAll {} hcanonical
    (List.mem_append_left _ hown)
  refine ⟨source, hregistry ▸ hlookup, hsame, ?_⟩
  rcases List.mem_append.mp hsource with hmem | hmem
  · obtain ⟨file', hfile', hof'⟩ := exists_of_mem_right hsources source hmem
    exact .inl ⟨file', List.mem_of_mem_filter hfile', hof'⟩
  · obtain ⟨row, hrow, rfl⟩ := List.mem_map.mp hmem
    exact .inr ⟨row, hrow, rfl⟩

/-- A file below a directory has a logical path that holds the names below the directory, however
the directory is spelled, unless by text alone it is where one is. So each file that is found is
registered: under its logical path stands its own source, that of another file with the same logical
path, or that of a template in the configuration. Only a directory that is to be watched and has no
path from the root is refused, with an error. -/
theorem discovered_registered {root : String} (hroot : normalize root ≠ ".") :
    (∀ names : List String, names ≠ [] → (∀ n ∈ names, IsName n) →
      ∃ path, logicalPath? root (pathBelow root names) = some path ∧
        ((∀ n ∈ names, '\\' ∉ n.toList) → path = String.join (names.map ("/" ++ ·)))) ∧
    ∀ (t : FileTree) (s : Sources) (files : List String), s.root = root → t.root.WellNamed →
      t.isDir root → listMatching t root s.pattern = .ok files →
      (∀ file ∈ files, ∃ names, file = pathBelow root names ∧ names ≠ [] ∧
        ∀ n ∈ names, IsName n) ∧
      ∀ g watched,
        (∀ c, populate t s g watched = .ok c →
          ∀ file ∈ files, ∃ path source, logicalPath? root file = some path ∧
            c.registry.lookup path = some source ∧ source.path = path ∧
            ((∃ file' ∈ files, source.IsOf root watched file') ∨
              ∃ row ∈ s.templates.rows, source = inlineSource g row)) ∧
        ((watched = true → files ≠ [] → ∃ location, t.canonicalize root = .ok location) →
          ∃ c, populate t s g watched = .ok c) ∧
        ∀ e, t.canonicalize root = .error e → files ≠ [] →
          populate t s g true = .error (.watching (.unwatchable root e)) := by
  constructor
  · intro names hne hnames
    refine ⟨normalizeLogical ("/".intercalate names), ?_, fun hbackslash => ?_⟩
    · rw [logicalPath?_pathBelow hne hnames, if_neg hroot]
    · exact normalizeLogical_intercalate hne fun n hn =>
        (hnames n hn).isSegment (hbackslash n hn)
  · rintro t s files rfl ht hdir hfiles
    have hpaths := logicalPath?_isSome_of_listMatching hroot ht hfiles
    refine ⟨exists_names_of_listMatching ht hfiles, fun g watched => ⟨?_, ?_, ?_⟩⟩
    · intro c hpopulate file hfile
      obtain ⟨path, hpath⟩ := Option.isSome_iff_exists.mp (hpaths file hfile)
      obtain ⟨source, hlookup, hsource⟩ :=
        exists_lookup_of_populate hpopulate ((if_pos hdir).mpr hfiles) hfile hpath
      exact ⟨path, source, hpath, hlookup, hsource⟩
    · exact exists_populate g ht hdir hfiles
    · intro e hrefused hne
      obtain ⟨file, rest, rfl⟩ := List.exists_cons_of_ne_nil hne
      exact populate_eq_error g hrefused hdir hfiles (hpaths file List.mem_cons_self)

/-- From a directory below, the directory of templates is found by its path from the root and by a
step up. -/
theorem discovered_registered_views :
    let t : FileTree :=
      ⟨.dir [("views", .dir [("h", .dir []), ("sub", .dir [("b.hbs", .file [])])])], ["views", "h"]⟩
    (∃ c source, populate t { root := "/views" } {} true = .ok c ∧
      c.registry.lookup "/sub/b.hbs" = some source ∧
      source.IsOf "/views" true "/views/sub/b.hbs") ∧
    ∃ c source, populate t { root := ".." } {} true = .ok c ∧
      c.registry.lookup "/sub/b.hbs" = some source ∧ source.IsOf ".." true "../sub/b.hbs" := by
  intro t
  have ht : t.root.WellNamed := FileNode.wellNamed_of_hasNames (by decide)
  have hviews : t.root.get? ["views"] = some
      (.dir [("h", .dir []), ("sub", .dir [("b.hbs", .file [])])]) := rfl
  have hh : t.root.get? ["views", "h"] = some (.dir []) := rfl
  have hsub : t.root.get? ["views", "sub"] = some (.dir [("b.hbs", .file [])]) := rfl
  have hshort : ∀ s ∈ ["views", "h", "sub"], Text.Utf8.size s ≤ FileNode.maxNameBytes := by decide
  have hfuel : t.root.count * t.root.count + t.root.count = 29 + 1 := by decide
  have hregisters : ∀ root, normalize root ≠ "." →
      t.locate root = .ok ["views"] ∧ t.canonicalize root = .ok ["views"] →
      FileTree.refusal? (join root "h") = none → FileTree.refusal? (join root "sub") = none →
      logicalPath? root (pathBelow root ["sub", "b.hbs"]) = some "/sub/b.hbs" →
      ∃ c source, populate t { root := root } {} true = .ok c ∧
        c.registry.lookup "/sub/b.hbs" = some source ∧
        source.IsOf root true (pathBelow root ["sub", "b.hbs"]) := by
    intro root hroot ⟨hlocate, hcanonical⟩ hfits hfits' hpath
    have hlocate₁ : t.locate (join root "h") = .ok ["views", "h"] :=
      FileTree.locate_join_of_child hlocate (by decide) hfits (hshort _ (by simp)) hviews rfl
        (by simp)
    have hlocate₂ : t.locate (join root "sub") = .ok ["views", "sub"] :=
      FileTree.locate_join_of_child hlocate (by decide) hfits' (hshort _ (by simp)) hviews rfl
        (by simp)
    have hfound : t.filesBelow (t.root.count * t.root.count + t.root.count + 1) root [] ["views"] =
        .ok [["sub", "b.hbs"]] := by
      rw [hfuel, FileTree.filesBelow, hviews]
      simp only [List.mapM_cons, FileTree.filesAt_dir, hlocate₁, hlocate₂]
      rfl
    obtain ⟨hdir, hfiles⟩ :=
      templates_listed _ hlocate hviews hfound (by decide) (List.pairwise_singleton _ _) rfl
    obtain ⟨-, hregistered⟩ := discovered_registered hroot
    obtain ⟨-, hregistered⟩ := hregistered t { root := root } _ rfl ht hdir hfiles
    obtain ⟨hregistered, hpopulates, -⟩ := hregistered {} true
    obtain ⟨c, hpopulate⟩ := hpopulates fun _ _ => ⟨_, hcanonical⟩
    obtain ⟨path, source, hpath', hlookup, -, ⟨file, hfile, hof⟩ | ⟨row, hrow, -⟩⟩ :=
      hregistered c hpopulate _ (List.mem_singleton_self _)
    · obtain rfl : path = "/sub/b.hbs" := Option.some.inj (hpath'.symm.trans hpath)
      obtain rfl := List.mem_singleton.mp hfile
      exact ⟨c, source, hpopulate, hlookup, hof⟩
    · cases hrow
  have hroot : t.root.get? [] = some t.root := rfl
  have habsolute : t.locate "/views" = .ok ["views"] ∧ t.canonicalize "/views" = .ok ["views"] :=
    FileTree.resolved_of_leads [.root, .name "views"] (by decide) (by decide)
      (.root (.name (by decide) hroot (hshort _ (by simp)) rfl (by simp) .stay)) (by decide)
  have hup : t.locate ".." = .ok ["views"] ∧ t.canonicalize ".." = .ok ["views"] :=
    FileTree.resolved_of_leads [.up] (by decide) (by decide) (.up hh .stay) (by decide)
  have hbelow : pathBelow "/views" ["sub", "b.hbs"] = "/views/sub/b.hbs" ∧
      pathBelow ".." ["sub", "b.hbs"] = "../sub/b.hbs" := by decide
  rw [← hbelow.1, ← hbelow.2]
  have hpaths : logicalPath? "/views" (pathBelow "/views" ["sub", "b.hbs"]) = some "/sub/b.hbs" ∧
      logicalPath? ".." (pathBelow ".." ["sub", "b.hbs"]) = some "/sub/b.hbs" := by decide +kernel
  exact ⟨hregisters _ (by decide) habsolute (by decide) (by decide) hpaths.1,
    hregisters _ (by decide) hup (by decide) (by decide) hpaths.2⟩

/-- Below the directory where one is, a file is found that has no logical path, and nothing is
registered. -/
theorem discovered_skipped :
    let t : FileTree := ⟨.dir [("a.hbs", .file [])], []⟩
    t.isDir "." ∧ listMatching t "." "*.hbs" = .ok ["./a.hbs"] ∧
      logicalPath? "." "./a.hbs" = none ∧
      populate t { root := "." } {} false = .ok {} := by
  intro t
  have hget : t.root.get? [] = some (.dir [("a.hbs", .file [])]) := rfl
  obtain ⟨hdir, hfiles⟩ : t.isDir "." ∧ listMatching t "." "*.hbs" = .ok ["./a.hbs"] :=
    templates_listed [["a.hbs"]] (FileTree.locate_here hget) hget rfl (by decide)
      (List.pairwise_singleton _ _) (by decide)
  have hpath : logicalPath? "." "./a.hbs" = none := by decide +kernel
  have hfold : ["./a.hbs"].foldlM (addFile t "." false) {} = .ok {} := by
    rw [List.foldlM_cons, addFile_eq_ok_iff.mpr (.passed hpath)]
    rfl
  exact ⟨hdir, hfiles, hpath,
    populate_eq_ok_iff.mpr ⟨_, {}, (if_pos hdir).mpr hfiles, hfold, rfl⟩⟩

end Catalogue

end CompiledViews
