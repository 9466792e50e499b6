import CompiledViews.Proofs.Source.Contents

/-! The subscriptions of the sources in a registry. They are the live subscriptions of the pool with
which the registry is populated: a source that is replaced takes its own along, and when populating
fails, those of the sources so far end with them. -/

namespace CompiledViews

open CompiledViews.Path

/-- The subscription of a source, with the path under which changes are told. -/
def Source.armed? (s : Source) : Option (Watch.Subscription × String) :=
  s.subscription?.map (·, s.path)

/-- The subscriptions of all sources. -/
def Registry.armed (r : Registry) : List (Watch.Subscription × String) :=
  r.sources.values.filterMap Source.armed?

/-- The live subscriptions, each with the path under which changes are told. -/
def Watch.Pool.armed (p : Watch.Pool Unit) : List (Watch.Subscription × String) :=
  p.listeners.map fun l => (l.1, l.2.logical)

namespace Watch.Pool

variable {p : Pool Unit}

lemma Tidy.armed_nodup (h : p.Tidy) : (p.armed.map (·.1)).Nodup := by
  rw [armed, List.map_map]
  exact h.subscriptions_nodup

lemma Tidy.armed_drop (h : p.Tidy) (s : Subscription) :
    (p.drop s).armed = p.armed.filter fun a => a.1 ≠ s := by
  rw [armed, h.listeners_drop, armed, List.filter_map]
  rfl

lemma armed_eq_nil_iff (h : p.Tidy) : p.armed = [] ↔ p.live = [] := by
  rw [armed, List.map_eq_nil_iff, listeners_eq_nil_iff h]

/-- When all subscriptions end, in whatever order, no watcher is left. -/
theorem live_foldl_drop (h : p.Tidy) {ss : List Subscription} (hall : ∀ a ∈ p.armed, a.1 ∈ ss) :
    (ss.foldl drop p).live = [] := by
  induction ss generalizing p with
  | nil =>
    refine (armed_eq_nil_iff h).mp (List.eq_nil_iff_forall_not_mem.mpr fun a ha => ?_)
    exact List.not_mem_nil (hall a ha)
  | cons s ss ih =>
    refine ih (h.drop s) fun a ha => ?_
    rw [h.armed_drop, List.mem_filter] at ha
    exact (List.mem_cons.mp (hall a ha.1)).resolve_left (of_decide_eq_true ha.2)

end Watch.Pool

namespace Registry

/-- Registering a source takes away the subscription of the one it replaces, and adds its own. -/
lemma armed_register_perm (r : Registry) (s : Source) :
    ∃ rest, r.armed.Perm
        (((r.sources.get? (normalizeLogical s.path)).bind Source.armed?).toList ++ rest) ∧
      (r.register s).2.armed.Perm (s.armed?.toList ++ rest) := by
  obtain ⟨rest, hold, hnew⟩ := r.sources.values_insert_perm (normalizeLogical s.path) s
  have hsplit : ∀ o : Option Source, (o.toList ++ rest).filterMap Source.armed? =
      (o.bind Source.armed?).toList ++ rest.filterMap Source.armed? := by
    intro o
    rw [List.filterMap_append]
    cases o with
    | none => rfl
    | some s => cases hs : s.armed? <;> simp [hs]
  exact ⟨rest.filterMap Source.armed?, hsplit _ ▸ hold.filterMap _,
    hsplit (some s) ▸ hnew.filterMap _⟩

lemma mem_values_register {r : Registry} {s s' : Source}
    (h : s' ∈ (r.register s).2.sources.values) : s' = s ∨ s' ∈ r.sources.values := by
  obtain ⟨rest, hold, hnew⟩ := r.sources.values_insert_perm (normalizeLogical s.path) s
  refine (List.mem_cons.mp (hnew.subset h)).imp_right fun hrest => ?_
  exact hold.symm.subset (List.mem_append_right _ hrest)

end Registry

namespace Catalogue

/-- The live subscriptions are those of the sources. -/
structure Attached (c : Catalogue) : Prop where
  keyed : c.registry.Keyed
  tidy : c.pool.Tidy
  armed_perm : c.pool.armed.Perm c.registry.armed

lemma attached_empty : ({} : Catalogue).Attached :=
  ⟨Registry.keyed_empty, Watch.Pool.tidy_empty, .refl _⟩

/-- The subscription of the source that is replaced ends. -/
lemma register_snd (r : Registry) (pool : Watch.Pool Unit) (s : Source) :
    (register ⟨r, pool⟩ s).2 = ⟨(r.register s).2,
      ((r.sources.get? (normalizeLogical s.path)).bind Source.armed?).elim pool
        fun a => pool.drop a.1⟩ := by
  rw [register, Registry.register]
  cases r.sources.get? (normalizeLogical s.path) with
  | none => rfl
  | some old => cases hs : old.subscription? <;> simp [Source.armed?, hs]

/-- A source is registered with a pool in which its own subscription is already live. -/
theorem attached_register {r : Registry} {pool : Watch.Pool Unit} {s : Source} (hkeyed : r.Keyed)
    (htidy : pool.Tidy) (hperm : pool.armed.Perm (s.armed?.toList ++ r.armed)) :
    (register ⟨r, pool⟩ s).2.Attached := by
  obtain ⟨rest, hold, hnew⟩ := r.armed_register_perm s
  have hpool := hperm.trans (hold.append_left _)
  rw [register_snd]
  cases hreplaced : (r.sources.get? (normalizeLogical s.path)).bind Source.armed? with
  | none =>
    rw [hreplaced] at hpool
    exact ⟨hkeyed.register s, htidy, hpool.trans hnew.symm⟩
  | some a =>
    obtain ⟨subscription, path⟩ := a
    rw [hreplaced, Option.toList_some, List.singleton_append] at hpool
    replace hpool := hpool.trans List.perm_middle
    -- no other source has the subscription that ends
    have hnodup := (hpool.map (·.1)).nodup_iff.mp htidy.armed_nodup
    have hothers : ∀ a ∈ s.armed?.toList ++ rest, a.1 ≠ subscription := by
      rintro a ha rfl
      exact (List.nodup_cons.mp hnodup).1 (List.mem_map_of_mem (f := (·.1)) ha)
    refine ⟨hkeyed.register s, htidy.drop subscription, ?_⟩
    show (pool.drop subscription).armed.Perm _
    rw [htidy.armed_drop]
    refine (hpool.filter _).trans ?_
    rw [List.filter_cons_of_neg (by simp),
      List.filter_eq_self.mpr fun a ha => decide_eq_true (hothers a ha)]
    exact hnew.symm

variable {t : FileTree} {root file : String} {watched : Bool} {c c' : Catalogue}

theorem Attached.addInline (h : c.Attached) (g : Generation) (name : String)
    (template : InlineTemplate) : (c.addInline g name template).Attached :=
  attached_register h.keyed h.tidy h.armed_perm

theorem Attached.adds (h : c.Attached) (hadds : Adds t root watched c file c') :
    c'.Attached := by
  cases hadds with
  | passed => exact h
  | unwatched => exact attached_register h.keyed h.tidy h.armed_perm
  | @watched path subscription pool hpath hwatched hwatch =>
    obtain ⟨htidy, hperm⟩ := (h.tidy.subscribes hwatch).listeners h.tidy
    exact attached_register h.keyed htidy ((hperm.map _).trans (h.armed_perm.cons _))

/-- Every watcher watches the directory, which has led to a place. -/
def Rooted (root : String) (base : Watch.Key) (pool : Watch.Pool Unit) : Prop :=
  ∀ e ∈ pool.live, e.2.root = root ∧ e.2.canonical = base

/-- A file is subscribed to by the names that lead to it below the directory. -/
def Below (root : String) (base : Watch.Key) (s : Source) : Prop :=
  ∀ file, s.file? = some file → logicalPath? root file = some s.path ∧
    ∃ names subscription, file = pathBelow root names ∧ (∀ n ∈ names, IsName n) ∧
      s.subscription? = some subscription ∧ subscription.key = base ++ names.map .name

structure Located (root : String) (base : Watch.Key) (c : Catalogue) : Prop where
  rooted : Rooted root base c.pool
  below : ∀ s ∈ c.registry.sources.values, Below root base s

lemma live_register {r : Registry} {pool : Watch.Pool Unit} {s : Source}
    {e : ℕ × Watch.Watcher Unit} (h : e ∈ (register ⟨r, pool⟩ s).2.pool.live) :
    ∃ e' ∈ pool.live, e.2.root = e'.2.root ∧ e.2.canonical = e'.2.canonical := by
  rw [register_snd] at h
  cases hreplaced : (r.sources.get? (normalizeLogical s.path)).bind Source.armed? with
  | none =>
    rw [hreplaced] at h
    exact ⟨e, h, rfl, rfl⟩
  | some a =>
    rw [hreplaced] at h
    exact Watch.Pool.exists_of_mem_drop h

theorem located_register {base : Watch.Key} {r : Registry} {pool : Watch.Pool Unit} {s : Source}
    (hpool : Rooted root base pool) (hr : ∀ s ∈ r.sources.values, Below root base s)
    (hs : Below root base s) : (register ⟨r, pool⟩ s).2.Located root base where
  rooted := by
    intro e he
    obtain ⟨e', he', hroot, hcanonical⟩ := live_register he
    rw [hroot, hcanonical]
    exact hpool e' he'
  below := by
    intro s' hs'
    rcases Registry.mem_values_register hs' with rfl | hold
    · exact hs
    · exact hr s' hold

/-- If no watcher is live, no file is registered. -/
lemma Attached.file?_eq_none {base : Watch.Key} (h : c.Attached) (hloc : c.Located root base)
    (hlive : c.pool.live = []) {s : Source} (hs : s ∈ c.registry.sources.values) :
    s.file? = none := by
  by_contra hfile
  obtain ⟨file, hfile⟩ := Option.ne_none_iff_exists'.mp hfile
  obtain ⟨-, names, subscription, -, -, hsubscription, -⟩ := hloc.below s hs file hfile
  have harmed : (subscription, s.path) ∈ c.registry.armed :=
    List.mem_filterMap.mpr ⟨s, hs, by rw [Source.armed?, hsubscription]; rfl⟩
  rw [← h.armed_perm.mem_iff, (Watch.Pool.armed_eq_nil_iff h.tidy).mpr hlive] at harmed
  exact List.not_mem_nil harmed

/-- Subscribing to a file below the directory is by the names that lead to it, on a watcher that is
live or on the first one. -/
theorem located_subscribes {base : Watch.Key} {names : List String} {logical : String}
    {subscription : Watch.Subscription} {pool : Watch.Pool Unit} (h : c.Attached)
    (hloc : c.Located root base) (hnames : ∀ n ∈ names, IsName n)
    (hs : c.pool.Subscribes t root (pathBelow root names) logical () subscription pool) :
    ∃ base', Rooted root base' pool ∧ (∀ s ∈ c.registry.sources.values, Below root base' s) ∧
      subscription.key = base' ++ names.map .name ∧
      (base' = base ∧ c.pool.live ≠ [] ∨
        ∃ location, t.canonicalize root = .ok location ∧ base' = rooted location) := by
  have hkey : ∀ {w : Watch.Watcher Unit}, w.root = root →
      w.key? (pathBelow root names) = some (w.canonical ++ names.map .name) := by
    rintro w rfl
    exact w.key?_pathBelow hnames
  cases hs with
  | @joined front back n w w' key id hlive hsubscribe =>
    have hmem : (n, w) ∈ c.pool.live := hlive ▸ by simp
    obtain ⟨hroot, hcanonical⟩ := hloc.rooted _ hmem
    obtain ⟨-, hkey', hroot', hcanonical', -⟩ := (h.tidy.tidy _ hmem).subscribe hsubscribe
    have hsame := Option.some.inj (hkey'.symm.trans (hkey hroot))
    refine ⟨base, ?_, hloc.below, hcanonical ▸ hsame, .inl ⟨rfl, List.ne_nil_of_mem hmem⟩⟩
    intro e he
    have hcases : e = (n, w') ∨ e ∈ c.pool.live := by
      rw [hlive]
      simp only [List.mem_append, List.mem_cons] at he ⊢
      tauto
    rcases hcases with rfl | he
    · exact ⟨hroot'.trans hroot, hcanonical'.trans hcanonical⟩
    · exact hloc.rooted e he
  | @begun w w' key id huncovered hstart hsubscribe =>
    obtain ⟨location, hlocation, rfl⟩ := Watch.Watcher.start_eq_ok_iff.mp hstart
    obtain ⟨-, hkey', hroot', hcanonical', -⟩ :=
      (Watch.Watcher.Tidy.start root _).subscribe hsubscribe
    have hlive : c.pool.live = [] := by
      refine List.eq_nil_iff_forall_not_mem.mpr fun e he => ?_
      have hnone := huncovered e he
      rw [hkey (hloc.rooted e he).1] at hnone
      cases hnone
    have hsame := Option.some.inj (hkey'.symm.trans (hkey rfl))
    refine ⟨rooted location, ?_, ?_, hsame, .inr ⟨location, hlocation, rfl⟩⟩
    · intro e he
      rw [hlive, List.nil_append, List.mem_singleton] at he
      rw [he]
      exact ⟨hroot', hcanonical'⟩
    · intro s hs file hfile
      rw [h.file?_eq_none hloc hlive hs] at hfile
      cases hfile

/-- Where the directory leads when it is looked at. -/
def LeadsTo (trees : ℕ → FileTree) (root : String) (base : Watch.Key) : Prop :=
  ∃ i location, (trees i).canonicalize root = .ok location ∧ base = rooted location

/-- The live subscriptions are those of the sources, each on its file below the directory. -/
structure Placed (trees : ℕ → FileTree) (root : String) (base : Watch.Key)
    (c : Catalogue) : Prop where
  attached : c.Attached
  located : c.Located root base
  leads : c.pool.live ≠ [] → LeadsTo trees root base

variable {trees : ℕ → FileTree} {base : Watch.Key}

lemma placed_empty (base : Watch.Key) : ({} : Catalogue).Placed trees root base := by
  refine ⟨attached_empty, ⟨?_, ?_⟩, fun h => absurd rfl h⟩
  · exact fun e he => nomatch he
  · exact fun s hs => nomatch hs

theorem Placed.adds {i : ℕ} {names : List String} (h : c.Placed trees root base)
    (hnames : ∀ n ∈ names, IsName n)
    (hadds : Adds (trees i) root true c (pathBelow root names) c') :
    ∃ base', c'.Placed trees root base' := by
  have hattached := h.attached.adds hadds
  cases hadds with
  | passed => exact ⟨base, h⟩
  | unwatched _ hwatched => cases hwatched
  | @watched path subscription pool hpath _ hwatch =>
    obtain ⟨base', hpool, hbelow, hkey, hbase⟩ := located_subscribes h.attached h.located hnames
      (h.attached.tidy.subscribes hwatch)
    refine ⟨base', hattached, located_register hpool hbelow ?_, fun _ => ?_⟩
    · intro file hfile
      obtain rfl := Option.some.inj hfile
      exact ⟨hpath, names, subscription, rfl, hnames, rfl, hkey⟩
    · rcases hbase with ⟨rfl, hlive⟩ | ⟨location, hlocation, rfl⟩
      · exact h.leads hlive
      · exact ⟨i, location, hlocation, rfl⟩

theorem Placed.addInline (h : c.Placed trees root base) (g : Generation) (name : String)
    (template : InlineTemplate) : (c.addInline g name template).Placed trees root base := by
  refine ⟨h.attached.addInline g name template, ?_, fun hlive => h.leads ?_⟩
  · exact located_register h.located.rooted h.located.below fun file hfile => nomatch hfile
  · obtain ⟨e, he⟩ := List.exists_mem_of_ne_nil _ hlive
    obtain ⟨e', he', -⟩ := live_register he
    exact List.ne_nil_of_mem he'

/-- Registers files while the tree changes: each file is added to the tree of its turn. With an
error comes what is registered so far. -/
def addFiles (trees : ℕ → FileTree) (root : String) (watched : Bool) :
    ℕ → List String → Catalogue → Except (SourceError × Catalogue) Catalogue
  | _, [], c => .ok c
  | i, file :: files, c => do
    let c' ← (addFile (trees i) root watched c file).mapError (·, c)
    addFiles trees root watched (i + 1) files c'

/-- Populating with any files that are listed, while the tree changes. -/
def populateAmid (listing : Except SourceError (List String))
    (trees : ℕ → FileTree) (s : Sources) (g : Generation) (watched : Bool) :
    Except (SourceError × Catalogue) Catalogue := do
  let files ← listing.mapError (·, {})
  let c ← addFiles trees s.root watched 0 files {}
  return s.templates.rows.foldl (fun c (name, t) => c.addInline g name t) c

/-- The files that populating lists. -/
def listing (t : FileTree) (s : Sources) : Except SourceError (List String) :=
  if t.isDir s.root then (listMatching t s.root s.pattern).mapError .listing else .ok []

lemma mapError_addFiles (t : FileTree) (root : String) (watched : Bool) (i : ℕ)
    (files : List String) (c : Catalogue) :
    (addFiles (fun _ => t) root watched i files c).mapError (·.1) =
      files.foldlM (addFile t root watched) c := by
  induction files generalizing i c with
  | nil => rfl
  | cons file files ih =>
    rw [addFiles, List.foldlM_cons]
    cases addFile t root watched c file with
    | error e => rfl
    | ok c' => exact ih (i + 1) c'

/-- While nothing changes, this is populating. -/
theorem mapError_populateAmid (t : FileTree) (s : Sources) (g : Generation)
    (watched : Bool) : (populateAmid (listing t s) (fun _ => t) s g watched).mapError (·.1) =
      populate t s g watched := by
  have hfiles : ∀ files : List String,
      (addFiles (fun _ => t) s.root watched 0 files {} >>= fun c =>
        pure (s.templates.rows.foldl (fun c (name, t) => c.addInline g name t) c)).mapError (·.1) =
      (files.foldlM (addFile t s.root watched) {} >>= fun c =>
        pure (s.templates.rows.foldl (fun c (name, t) => c.addInline g name t) c)) := by
    intro files
    rw [← mapError_addFiles t s.root watched 0]
    cases addFiles (fun _ => t) s.root watched 0 files {} <;> rfl
  rw [populateAmid, populate, listing]
  split
  case isTrue =>
    cases listMatching t s.root s.pattern with
    | error e => rfl
    | ok files => exact hfiles files
  case isFalse => exact hfiles []

/-- What is registered in the end, also if that is an error. -/
def reached : Except (SourceError × Catalogue) Catalogue → Catalogue
  | .ok c => c
  | .error (_, c) => c

theorem Attached.addFiles (h : c.Attached) (trees : ℕ → FileTree) (root : String) (watched : Bool)
    (i : ℕ) (files : List String) :
    (reached (addFiles trees root watched i files c)).Attached := by
  induction files generalizing i c with
  | nil => exact h
  | cons file files ih =>
    rw [Catalogue.addFiles]
    cases hadd : addFile (trees i) root watched c file with
    | error e => exact h
    | ok c' => exact ih (h.adds (addFile_eq_ok_iff.mp hadd)) (i + 1)

lemma Attached.foldl_addInline (h : c.Attached) (g : Generation)
    (rows : List (String × InlineTemplate)) :
    (rows.foldl (fun c (name, t) => c.addInline g name t) c).Attached := by
  induction rows generalizing c with
  | nil => exact h
  | cons row rows ih => exact ih (h.addInline g row.1 row.2)

theorem attached_populateAmid (found : Except SourceError (List String))
    (trees : ℕ → FileTree) (s : Sources) (g : Generation) (watched : Bool) :
    (reached (populateAmid found trees s g watched)).Attached := by
  cases found with
  | error e => exact attached_empty
  | ok files =>
    have hfiles : (reached (addFiles trees s.root watched 0 files {})).Attached :=
      attached_empty.addFiles trees s.root watched 0 files
    show (reached (addFiles trees s.root watched 0 files {} >>= _)).Attached
    cases hadd : addFiles trees s.root watched 0 files {} with
    | error e =>
      rw [hadd] at hfiles
      exact hfiles
    | ok c =>
      rw [hadd] at hfiles
      exact Attached.foldl_addInline hfiles g _

theorem Placed.addFiles {files : List String} {i : ℕ} (h : c.Placed trees root base)
    (hfiles : ∀ file ∈ files, ∃ names, file = pathBelow root names ∧ names ≠ [] ∧
      ∀ n ∈ names, IsName n)
    (hadd : addFiles trees root true i files c = .ok c') :
    ∃ base', c'.Placed trees root base' := by
  induction files generalizing i c base with
  | nil =>
    obtain rfl := Except.ok.inj hadd
    exact ⟨base, h⟩
  | cons file files ih =>
    rw [List.forall_mem_cons] at hfiles
    obtain ⟨⟨names, rfl, -, hnames⟩, hrest⟩ := hfiles
    obtain ⟨c₁, hadd₁, hadd₂⟩ := Except.bind_eq_ok_iff.mp hadd
    obtain ⟨base₁, hplaced⟩ := h.adds hnames
      (addFile_eq_ok_iff.mp (Except.mapError_eq_ok_iff.mp hadd₁))
    exact ih hplaced hrest hadd₂

lemma Placed.foldl_addInline (h : c.Placed trees root base) (g : Generation)
    (rows : List (String × InlineTemplate)) :
    (rows.foldl (fun c (name, t) => c.addInline g name t) c).Placed trees root base := by
  induction rows generalizing c with
  | nil => exact h
  | cons row rows ih => exact ih (h.addInline g row.1 row.2)

theorem placed_populateAmid {s : Sources} {g : Generation} (ht : t.root.WellNamed)
    (h : populateAmid (listing t s) trees s g true = .ok c) :
    ∃ base, c.Placed trees s.root base := by
  obtain ⟨files, hlisting, hrest⟩ := Except.bind_eq_ok_iff.mp h
  obtain ⟨c', hadd, hc⟩ := Except.bind_eq_ok_iff.mp hrest
  obtain rfl := Except.ok.inj hc
  have hfiles : ∀ file ∈ files, ∃ names, file = pathBelow s.root names ∧ names ≠ [] ∧
      ∀ n ∈ names, IsName n := by
    have hlisted := Except.mapError_eq_ok_iff.mp hlisting
    rw [listing] at hlisted
    split at hlisted
    case isTrue =>
      exact exists_names_of_listMatching ht (Except.mapError_eq_ok_iff.mp hlisted)
    case isFalse =>
      obtain rfl := Except.ok.inj hlisted
      simp
  have hempty : ({} : Catalogue).Placed trees s.root [] := placed_empty []
  obtain ⟨base, hplaced⟩ := hempty.addFiles hfiles hadd
  exact ⟨base, hplaced.foldl_addInline g _⟩

/-- A live subscription is that of a source. -/
lemma Attached.exists_source (h : c.Attached) {a : Watch.Subscription × String}
    (ha : a ∈ c.pool.armed) : ∃ source ∈ c.registry.sources.values,
      source.subscription? = some a.1 ∧ source.path = a.2 := by
  obtain ⟨source, hsource, harmed⟩ := List.mem_filterMap.mp (h.armed_perm.mem_iff.mp ha)
  obtain ⟨subscription, hsubscription, rfl⟩ := Option.map_eq_some_iff.mp harmed
  exact ⟨source, hsource, hsubscription, rfl⟩

lemma Attached.dispatch (h : c.Attached) {kind : Watch.EventKind} (hkind : kind.isChange = true)
    (key : Watch.Key) : c.pool.dispatch ⟨kind, [key]⟩ =
      (c.pool.armed.filter (·.1.key = key)).map fun a => ((), a.2) := by
  rw [h.tidy.dispatch hkind, Watch.Pool.armed, List.filter_map, List.map_map]
  rfl

/-- The file below the directory is told from the key of the subscription. -/
lemma Located.file?_eq (h : c.Located root base) {source : Source}
    (hsource : source ∈ c.registry.sources.values) {subscription : Watch.Subscription}
    (hsubscription : source.subscription? = some subscription) {names : List String}
    (hkey : subscription.key = base ++ names.map .name) :
    source.file? = some (pathBelow root names) := by
  obtain ⟨file, hfile⟩ : ∃ file, source.file? = some file := by
    obtain ⟨path, place⟩ := source
    cases place with
    | memory => cases hsubscription
    | file file => exact ⟨file, rfl⟩
  obtain ⟨-, names', subscription', rfl, -, hsubscription', hkey'⟩ := h.below source hsource _ hfile
  obtain rfl := Option.some.inj (hsubscription'.symm.trans hsubscription)
  have hnames : names' = names :=
    List.map_injective_iff.mpr (fun _ _ => Path.Component.name.inj)
      (List.append_cancel_left (hkey'.symm.trans hkey))
  rw [hfile, hnames]

/-- A file has one source. -/
lemma Placed.source_unique (h : c.Placed trees root base) {source source' : Source}
    (hsource : source ∈ c.registry.sources.values) (hsource' : source' ∈ c.registry.sources.values)
    {file : String} (hfile : source.file? = some file) (hfile' : source'.file? = some file) :
    source = source' := by
  have hpath := (h.located.below source hsource file hfile).1
  have hpath' := (h.located.below source' hsource' file hfile').1
  have hlookup := (h.attached.keyed.mem_values_iff source).mp hsource
  have hlookup' := (h.attached.keyed.mem_values_iff source').mp hsource'
  rw [Option.some.inj (hpath.symm.trans hpath'), hlookup'] at hlookup
  exact (Option.some.inj hlookup).symm

/-- An event at the file of a source is told once, under the key of the source. -/
theorem Placed.dispatch_file (h : c.Placed trees root base) {kind : Watch.EventKind}
    (hkind : kind.isChange = true) {names : List String} (hnames : ∀ n ∈ names, IsName n)
    {key : String} {source : Source} (hget : c.registry.sources.get? key = some source)
    (hfile : source.file? = some (pathBelow root names)) :
    c.pool.dispatch ⟨kind, [base ++ names.map .name]⟩ = [((), key)] := by
  have hsource := (Table.mem_values_iff ..).mpr ⟨key, hget⟩
  obtain ⟨hpath, names', subscription, hsame, hnames', hsubscription, hid⟩ :=
    h.located.below source hsource _ hfile
  have hkey : key = source.path :=
    (h.attached.keyed key source hget).trans (normalizeLogical_of_logicalPath? hpath)
  have hcomponents := congrArg components hsame
  rw [components_pathBelow root hnames, components_pathBelow root hnames'] at hcomponents
  rw [← List.append_cancel_left hcomponents] at hid
  have hone : c.pool.armed.filter (·.1.key = base ++ names.map .name) =
      [(subscription, source.path)] := by
    have hnodup := (List.Nodup.of_map _ h.attached.tidy.armed_nodup).filter
      fun a => decide (a.1.key = base ++ names.map .name)
    apply List.perm_singleton.mp
    refine (List.perm_ext_iff_of_nodup hnodup (List.nodup_singleton _)).mpr fun a => ?_
    rw [List.mem_filter, List.mem_singleton, decide_eq_true_iff]
    constructor
    · rintro ⟨ha, hkey'⟩
      obtain ⟨source', hsource', hsubscription', hpath'⟩ := h.attached.exists_source ha
      obtain rfl := h.source_unique hsource hsource' hfile
        (h.located.file?_eq hsource' hsubscription' hkey')
      exact Prod.ext (Option.some.inj (hsubscription'.symm.trans hsubscription)) hpath'.symm
    · rintro rfl
      refine ⟨h.attached.armed_perm.mem_iff.mpr (List.mem_filterMap.mpr ⟨source, hsource, ?_⟩), hid⟩
      rw [Source.armed?, hsubscription]
      rfl
  rw [h.attached.dispatch hkind, hone, hkey]
  rfl

/-- An event at any other file below the directory is not told. -/
theorem Placed.dispatch_other (h : c.Placed trees root base) {kind : Watch.EventKind}
    (hkind : kind.isChange = true) {names : List String}
    (hfile : ∀ source ∈ c.registry.sources.values, source.file? ≠ some (pathBelow root names)) :
    c.pool.dispatch ⟨kind, [base ++ names.map .name]⟩ = [] := by
  rw [h.attached.dispatch hkind, List.map_eq_nil_iff, List.filter_eq_nil_iff]
  intro a ha hkey
  obtain ⟨source, hsource, hsubscription, -⟩ := h.attached.exists_source ha
  exact hfile source hsource
    (h.located.file?_eq hsource hsubscription (of_decide_eq_true hkey))

/-- Each source of a file has a live subscription, and there are no others. -/
theorem Placed.length_listeners (h : c.Placed trees root base) :
    c.pool.listeners.length = c.registry.physicalCount := by
  have hlength := h.attached.armed_perm.length_eq
  rw [Watch.Pool.armed, List.length_map, Registry.armed, List.length_filterMap_eq_countP] at hlength
  rw [hlength, Registry.physicalCount]
  refine List.countP_congr fun source hsource => ?_
  rw [Source.armed?, Option.isSome_map, Source.isPhysical]
  constructor
  · intro hsome
    obtain ⟨path, place⟩ := source
    cases place with
    | memory => cases hsome
    | file => rfl
  · intro hsome
    obtain ⟨file, hfile⟩ := Option.isSome_iff_exists.mp hsome
    obtain ⟨-, -, subscription, -, -, hsubscription, -⟩ := h.located.below source hsource file hfile
    rw [hsubscription]
    rfl

/-- Of two names of one file the second does not lie below the directory as its root is written, so
that the file is listened to under the first name when the second is refused. -/
lemma exists_outsideRoot :
    let t : FileTree :=
      ⟨.dir [("w", .dir [("views", .dir [("a.hbs", .file []), ("x.hbs", .file [])])])], ["w"]⟩
    ∃ c, populateAmid (.ok ["./views/x.hbs", "views/x.hbs"]) (fun _ => t)
        { root := "./views" } {} true =
          .error (.watching (.outsideRoot "views/x.hbs" "./views"), c) ∧
      c.registry.paths = ["/x.hbs"] := by
  intro t
  let home : Watch.Key := [.root, .name "w"]
  have hw : t.root.get? ["w"] =
      some (.dir [("views", .dir [("a.hbs", .file []), ("x.hbs", .file [])])]) := rfl
  obtain ⟨-, hcanonical⟩ :
      t.locate "./views" = .ok ["w", "views"] ∧ t.canonicalize "./views" = .ok ["w", "views"] :=
    FileTree.resolved_of_leads [.here, .name "views"] (by decide) (by decide)
      (.here hw (.name (by decide) hw (by decide) rfl (by simp) .stay)) (by decide)
  have hstart : Watch.Watcher.start (α := Unit) t "./views" =
      .ok { root := "./views", canonical := home ++ [.name "views"] } :=
    Watch.Watcher.start_eq_ok_iff.mpr ⟨_, hcanonical, rfl⟩
  let w : Watch.Watcher Unit :=
    { root := "./views"
      canonical := home ++ [.name "views"]
      subscribers := [(home ++ [.name "views", .name "x.hbs"], [⟨0, "/x.hbs", ()⟩])]
      nextId := 1 }
  let subscription : Watch.Subscription := ⟨0, 0, home ++ [.name "views", .name "x.hbs"]⟩
  let c : Catalogue := (register ⟨{}, ⟨[(0, w)], 1⟩⟩
    ⟨"/x.hbs", .file "./views/x.hbs" (some subscription)⟩).2
  have hpaths : logicalPath? "./views" "./views/x.hbs" = some "/x.hbs" ∧
      logicalPath? "./views" "views/x.hbs" = some "/x.hbs" := by decide +kernel
  have hfirst : addFile t "./views" true {} "./views/x.hbs" = .ok c := by
    refine addFile_eq_ok_iff.mpr (.watched hpaths.1 rfl ?_)
    simp only [Watch.Pool.watch, List.findSome?_nil, hstart]
    decide
  have hsecond : addFile t "./views" true c "views/x.hbs" =
      .error (.watching (.outsideRoot "views/x.hbs" "./views")) := by
    have hwatch : c.pool.watch t "./views" "views/x.hbs" "/x.hbs" () =
        .error (.outsideRoot "views/x.hbs" "./views") :=
      Watch.Pool.watch_eq_outsideRoot (by decide) hstart (by decide)
    unfold addFile
    simp only [hpaths.2, hwatch]
    rfl
  have hfails : populateAmid (.ok ["./views/x.hbs", "views/x.hbs"]) (fun _ => t)
      { root := "./views" } {} true =
        .error (.watching (.outsideRoot "views/x.hbs" "./views"), c) := by
    simp only [populateAmid, Except.mapError, addFiles, Except.ok_bind, hfirst, hsecond]
    rfl
  exact ⟨c, hfails, by decide⟩

/-- Populating leaves one live subscription for each source of a file, on this file and under the
key of the source, and no others: an event at the file of a source is told once, one at any other
file below the directory is not. When populating fails, at whatever file, and the sources so far are
dropped in whatever order, no watcher is left. All this holds while the tree changes, as long as the
names in it are names that files have. -/
theorem live_subscriptions_of_sources (s : Sources) (g : Generation) :
    (∀ t watched, (populateAmid (listing t s) (fun _ => t) s g watched).mapError (·.1) =
      populate t s g watched) ∧
    (∀ t trees c, t.root.WellNamed → populateAmid (listing t s) trees s g true = .ok c →
      ∃ base, (c.pool.live ≠ [] → LeadsTo trees s.root base) ∧
        c.pool.armed.Perm c.registry.armed ∧
        c.pool.listeners.length = c.registry.physicalCount ∧
        (∀ source ∈ c.registry.sources.values, Below s.root base source) ∧
        ∀ kind names, kind.isChange = true → (∀ n ∈ names, IsName n) →
          (∀ key source, c.registry.sources.get? key = some source →
            source.file? = some (pathBelow s.root names) →
            c.pool.dispatch ⟨kind, [base ++ names.map .name]⟩ = [((), key)]) ∧
          ((∀ source ∈ c.registry.sources.values, source.file? ≠ some (pathBelow s.root names)) →
            c.pool.dispatch ⟨kind, [base ++ names.map .name]⟩ = [])) ∧
    ∀ found trees watched e c, populateAmid found trees s g watched = .error (e, c) →
      ∀ ended : List Watch.Subscription, ended.Perm (c.registry.armed.map (·.1)) →
        (ended.foldl Watch.Pool.drop c.pool).live = [] := by
  refine ⟨fun t watched => mapError_populateAmid t s g watched, ?_, ?_⟩
  · intro t trees c ht hpopulate
    obtain ⟨base, h⟩ := placed_populateAmid ht hpopulate
    refine ⟨base, h.leads, h.attached.armed_perm, h.length_listeners, h.located.below, ?_⟩
    intro kind names hkind hnames
    exact ⟨fun key source hget hfile => h.dispatch_file hkind hnames hget hfile,
      fun hother => h.dispatch_other hkind hother⟩
  · intro found trees watched e c hpopulate ended hended
    have hattached := attached_populateAmid found trees s g watched
    rw [hpopulate] at hattached
    refine Watch.Pool.live_foldl_drop hattached.tidy fun a ha => hended.symm.subset ?_
    exact List.mem_map_of_mem (hattached.armed_perm.subset ha)

/-- A file whose key a template in the configuration has is not listened to. A file that cannot be
watched ends the subscription of the one before it. -/
theorem live_subscriptions_of_sources_shadowed :
    let t : FileTree :=
      ⟨.dir [("w", .dir [("views", .dir [("a.hbs", .file []), ("x.hbs", .file [])])])], ["w"]⟩
    let s : Sources := { root := "/w/views", templates := Table.ofRows [("x.hbs", ⟨"b", none⟩)] }
    let base : Watch.Key := [.root, .name "w", .name "views"]
    (∃ c, populate t s {} true = .ok c ∧
      c.pool.dispatch ⟨.modified, [base ++ [.name "a.hbs"]]⟩ = [((), "/a.hbs")] ∧
      c.pool.dispatch ⟨.modified, [base ++ [.name "x.hbs"]]⟩ = []) ∧
    ∃ e c, populateAmid (.ok ["./views/x.hbs", "views/x.hbs"]) (fun _ => t)
        { root := "./views" } {} true = .error (e, c) ∧
      c.registry.paths = ["/x.hbs"] ∧
      ((c.registry.armed.map (·.1)).foldl Watch.Pool.drop c.pool).live = [] := by
  intro t s base
  have ht : t.root.WellNamed := FileNode.wellNamed_of_hasNames (by decide)
  constructor
  · have hroot : t.root.get? [] = some t.root := rfl
    have hw : t.root.get? ["w"] =
        some (.dir [("views", .dir [("a.hbs", .file []), ("x.hbs", .file [])])]) := rfl
    have hleads : t.root.Leads FileTree.isShort FileNode.maxLinks ["w"]
        [.root, .name "w", .name "views"] FileNode.maxLinks ["w", "views"] :=
      .root (.name (by decide) hroot (by decide) rfl (by simp)
        (.name (by decide) hw (by decide) rfl (by simp) .stay))
    obtain ⟨hlocate, hcanonical⟩ :
        t.locate "/w/views" = .ok ["w", "views"] ∧ t.canonicalize "/w/views" = .ok ["w", "views"] :=
      FileTree.resolved_of_leads _ (by decide) (by decide) hleads (by decide)
    obtain ⟨hdir, hfiles⟩ : t.isDir "/w/views" ∧
        listMatching t "/w/views" "*.hbs" = .ok ["/w/views/a.hbs", "/w/views/x.hbs"] :=
      templates_listed [["a.hbs"], ["x.hbs"]] hlocate rfl (by rfl) (by decide) (by decide)
        (by decide)
    have hkeys : s.templates.keys = ["x.hbs"] := by decide
    have hnames : normalizeLogical "x.hbs" = "/x.hbs" ∧ normalizeLogical "/x.hbs" = "/x.hbs" ∧
        normalizeLogical "/a.hbs" = "/a.hbs" := by decide +kernel
    have hpaths : logicalPath? "/w/views" "/w/views/a.hbs" = some "/a.hbs" ∧
        logicalPath? "/w/views" "/w/views/x.hbs" = some "/x.hbs" := by decide +kernel
    have hbelow : pathBelow "/w/views" ["a.hbs"] = "/w/views/a.hbs" ∧
        pathBelow "/w/views" ["x.hbs"] = "/w/views/x.hbs" := by decide +kernel
    obtain ⟨c, hpopulate⟩ : ∃ c, populate t s {} true = .ok c :=
      exists_populate {} ht hdir hfiles fun _ _ => ⟨_, hcanonical⟩
    have htab := tabulates_of_populate hpopulate ((if_pos hdir).mpr hfiles)
    obtain ⟨hconstant, hlive, -⟩ := live_subscriptions_of_sources s {}
    obtain ⟨base', hleads, -, -, hsources, hevents⟩ := hlive t (fun _ => t) c ht
      (Except.mapError_eq_ok_iff.mp ((hconstant t true).trans hpopulate))
    have ha : c.pool.dispatch ⟨.modified, [base' ++ [.name "a.hbs"]]⟩ = [((), "/a.hbs")] := by
      obtain ⟨source, hlookup⟩ := Option.isSome_iff_exists.mp
        ((htab.lookup_isSome_iff "/a.hbs").mpr (hnames.2.2 ▸ (htab.mem_paths_iff _).mpr
          (.inl ⟨"/w/views/a.hbs", by simp, hpaths.1⟩)))
      have hyields := (htab.yields _ source hlookup).2
      obtain ⟨file, hfile, hpath, hof⟩ := hyields.exists_file (by
        rw [hkeys]
        decide)
      obtain rfl : file = "/w/views/a.hbs" := by
        rcases List.mem_pair.mp hfile with rfl | rfl
        · rfl
        · exact absurd (hpaths.2.symm.trans hpath) (by rw [hnames.2.2]; decide)
      refine (hevents .modified ["a.hbs"] rfl (by decide)).1 "/a.hbs" source ?_ (hbelow.1 ▸ hof)
      rw [Registry.lookup, hnames.2.2] at hlookup
      exact hlookup
    obtain rfl : base' = base := by
      have hused : c.pool.live ≠ [] := fun hnone => by simp [Watch.Pool.dispatch, hnone] at ha
      obtain ⟨i, location, hlocation, hbase⟩ := hleads hused
      rw [hbase, Except.ok.inj (hlocation.symm.trans hcanonical)]
      rfl
    refine ⟨c, hpopulate, ha, ?_⟩
    refine (hevents .modified ["x.hbs"] rfl (by decide)).2 fun source hsource hfile => ?_
    rw [hbelow.2] at hfile
    have hpath := (hsources source hsource _ hfile).1
    have hkey : source.path = "/x.hbs" := Option.some.inj (hpath.symm.trans hpaths.2)
    have hlookup := ((keyed_of_populate hpopulate).mem_values_iff source).mp hsource
    have hnone := (htab.yields _ source hlookup).2.file?_eq_none
      ⟨"x.hbs", by simp [hkeys], by rw [hkey, hnames.1, hnames.2.1]⟩
    rw [hfile] at hnone
    cases hnone
  · obtain ⟨c, hfails, hpaths⟩ := exists_outsideRoot
    refine ⟨_, c, hfails, hpaths, ?_⟩
    exact (live_subscriptions_of_sources { root := "./views" } {}).2.2 _ _ _ _ _ hfails _
      (.refl _)

end Catalogue

end CompiledViews
