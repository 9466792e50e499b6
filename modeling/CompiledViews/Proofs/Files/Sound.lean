import CompiledViews.Proofs.Files.Walk
import Mathlib.Data.List.Perm.Subperm
import Mathlib.Logic.Relation

/-! Where all links lead somewhere and none leads back up, a walk comes to its end exactly when the
system takes every path that it is asked for. -/

namespace CompiledViews

open CompiledViews.Path

namespace FileNode

variable {t : FileNode} {start at_ location : Location} {above : List Location} {e : FileNode}
  {entries : List (String × FileNode)} {name : String} {names rest : List String}

/-- By a name one gets from a directory into another, which a link may lead to. -/
def Opens (t : FileNode) (at_ below : Location) : Prop :=
  ∃ name entries, t.LeadTo at_ [name] below ∧ t.get? below = some (.dir entries)

/-- Files as a system has them, among which no link below a directory leads nowhere or around. -/
structure Sound (t : FileNode) (start : Location) : Prop where
  named : t.WellNamed
  distinct : t.Distinct
  storable : t.Storable
  leads : ∀ at_ entries, Relation.ReflTransGen t.Opens start at_ →
    t.get? at_ = some (.dir entries) →
    ∀ entry ∈ entries, ∃ below, t.LeadTo at_ [entry.1] below
  acyclic : ∀ at_, Relation.ReflTransGen t.Opens start at_ → ¬ Relation.TransGen t.Opens at_ at_

/-- What a directory has under a name has a name that the system can hold. -/
lemma Sound.of_child (ht : t.Sound start) (hdir : t.get? at_ = some (.dir entries))
    (hchild : child? entries name = some e) :
    IsName name ∧ Text.Utf8.size name ≤ maxNameBytes ∧ '\x00' ∉ name.toList := by
  have hmem := (ht.distinct.child?_iff hdir).mp hchild
  exact ⟨ht.named at_ entries hdir _ hmem, ht.storable at_ entries hdir _ hmem⟩

/-- Names lead from a location to a directory or to a link. Of all paths below a directory, a walk
asks the system for those of the directories and the links. -/
def Asks (t : FileNode) (at_ : Location) (names : List String) : Prop :=
  ∃ front name location entries e, names = front ++ [name] ∧ t.LeadTo at_ front location ∧
    t.get? location = some (.dir entries) ∧ child? entries name = some e ∧
      ∀ bytes, e ≠ .file bytes

section Asks

lemma asks_of_child (hdir : t.get? at_ = some (.dir entries))
    (hchild : child? entries name = some e) (he : ∀ bytes, e ≠ .file bytes) : t.Asks at_ [name] :=
  ⟨[], name, at_, entries, e, rfl, leadTo_nil.mpr rfl, hdir, hchild, he⟩

lemma Asks.cons (h : t.Asks location names) (hlead : t.LeadTo at_ [name] location) :
    t.Asks at_ (name :: names) := by
  obtain ⟨front, last, end_, entries, e, rfl, hfront, hdir, hchild, he⟩ := h
  exact ⟨name :: front, last, end_, entries, e, rfl, leadTo_cons.mpr ⟨location, hlead, hfront⟩,
    hdir, hchild, he⟩

/-- Names that are asked for begin with an entry, and go on below where it leads if it is not the
last. -/
theorem Asks.cases (h : t.Asks at_ names) :
    (∃ name entries e, names = [name] ∧ t.get? at_ = some (.dir entries) ∧
      child? entries name = some e ∧ ∀ bytes, e ≠ .file bytes) ∨
    ∃ name rest location, names = name :: rest ∧ t.LeadTo at_ [name] location ∧
      t.Asks location rest := by
  obtain ⟨front, last, end_, entries, e, rfl, hfront, hdir, hchild, he⟩ := h
  cases front with
  | nil =>
    obtain rfl := leadTo_nil.mp hfront
    exact .inl ⟨last, entries, e, rfl, hdir, hchild, he⟩
  | cons name front =>
    obtain ⟨location, hfirst, hrest⟩ := leadTo_cons.mp hfront
    exact .inr ⟨name, front ++ [last], location, rfl, hfirst, front, last, end_, entries, e, rfl,
      hrest, hdir, hchild, he⟩

/-- Something is asked for below directories only. -/
lemma Asks.exists_dir (h : t.Asks at_ names) : ∃ entries, t.get? at_ = some (.dir entries) := by
  rcases h.cases with ⟨name, entries, e, -, hdir, -⟩ | ⟨name, rest, location, -, hlead, -⟩
  · exact ⟨entries, hdir⟩
  · obtain ⟨entries, e, hdir, -⟩ := hlead.exists_child
    exact ⟨entries, hdir⟩

end Asks

section Directories

/-- The locations of the directories of a tree. -/
def directories : FileNode → List Location
  | .dir entries => [] :: directoriesAll entries
  | _ => []
where
  directoriesAll : List (String × FileNode) → List Location
    | [] => []
    | (name, t) :: ts => t.directories.map (name :: ·) ++ directoriesAll ts

mutual

theorem length_directories_le : ∀ t : FileNode, t.directories.length ≤ t.count
  | .file _ => Nat.zero_le _
  | .link _ => Nat.zero_le _
  | .dir entries => by
    rw [directories, count, List.length_cons, Nat.add_comm]
    exact Nat.add_le_add_left (length_directoriesAll_le entries) 1

theorem length_directoriesAll_le : ∀ entries : List (String × FileNode),
    (directories.directoriesAll entries).length ≤ count.countAll entries
  | [] => Nat.le_refl 0
  | (name, t) :: ts => by
    rw [directories.directoriesAll, count.countAll, List.length_append, List.length_map]
    exact Nat.add_le_add (length_directories_le t) (length_directoriesAll_le ts)

end

lemma mem_directoriesAll (h : child? entries name = some e) (hmem : location ∈ e.directories) :
    name :: location ∈ directories.directoriesAll entries := by
  induction entries with
  | nil => simp [child?] at h
  | cons entry entries ih =>
    obtain ⟨name', e'⟩ := entry
    rw [directories.directoriesAll, List.mem_append]
    by_cases hsame : name' = name
    · obtain rfl := hsame
      obtain rfl : e' = e := by simpa [child?] using h
      exact .inl (List.mem_map_of_mem hmem)
    · exact .inr (ih (by simpa [child?, hsame] using h))

lemma mem_directories (h : t.get? location = some (.dir entries)) : location ∈ t.directories := by
  induction location generalizing t with
  | nil =>
    obtain rfl : t = .dir entries := Option.some.inj h
    exact List.mem_cons_self
  | cons name names ih =>
    cases t with
    | file bytes => cases h
    | link target => cases h
    | dir entries' =>
      rw [get?] at h
      obtain ⟨e, hchild, hget⟩ := Option.bind_eq_some_iff.mp h
      exact List.mem_cons_of_mem _ (mem_directoriesAll hchild (ih hget))

end Directories

section Inside

/-- Where a walk from a directory is after it has come through the directories at some locations,
one below the other and each below the last. -/
structure Inside (t : FileNode) (start : Location) (above : List Location) (at_ : Location) :
    Prop where
  reached : Relation.ReflTransGen t.Opens start at_
  opened : ∀ location ∈ above, Relation.TransGen t.Opens location at_
  nodup : (at_ :: above).Nodup
  isDir : ∀ location ∈ at_ :: above, location ∈ t.directories

lemma Inside.length_lt (h : t.Inside start above at_) : above.length < t.count := by
  have hlength := (h.nodup.subperm h.isDir).length_le
  exact Nat.lt_of_lt_of_le (Nat.lt_of_succ_le hlength) t.length_directories_le

lemma Inside.of_dir (hdir : t.get? at_ = some (.dir entries)) : t.Inside at_ [] at_ where
  reached := .refl
  opened := by simp
  nodup := List.nodup_singleton at_
  isDir := by simpa using mem_directories hdir

/-- A walk that goes on in a directory has not been there. -/
theorem Inside.enter (h : t.Inside start above at_) (ht : t.Sound start)
    (hopens : t.Opens at_ location) : t.Inside start (at_ :: above) location := by
  have hreached := h.reached.tail hopens
  have hopened : ∀ mid ∈ at_ :: above, Relation.TransGen t.Opens mid location :=
    List.forall_mem_cons.mpr ⟨.single hopens, fun mid hmid => (h.opened mid hmid).tail hopens⟩
  have hfresh : location ∉ at_ :: above := fun hmem =>
    ht.acyclic location hreached (hopened location hmem)
  obtain ⟨name, entries, -, hget⟩ := hopens
  exact ⟨hreached, hopened, List.nodup_cons.mpr ⟨hfresh, h.nodup⟩,
    List.forall_mem_cons.mpr ⟨mem_directories hget, h.isDir⟩⟩

end Inside

end FileNode

namespace FileTree

open FileNode (child?)

variable {t : FileTree} {start at_ : Location} {above : List Location} {e : FileNode}
  {entries : List (String × FileNode)} {path name : String} {names : List String} {fuel : ℕ}

/-- The system finds every path below one that a walk asks for. -/
def WithinLimits (t : FileTree) (path : String) (start : Location) : Prop :=
  ∀ names, t.root.Asks start names → ∃ location, t.locate (pathBelow path names) = .ok location

/-- A walk from a path comes to its end, or to a path that the system finds too long, or with too
many links on it. -/
def Ends (t : FileTree) (path : String) (at_ : Location)
    (x : Except Obstacle (List (List String))) : Prop :=
  (∃ found, x = .ok found) ∨ ∃ names error, t.root.Asks at_ names ∧ IsLimit error ∧
    x = .error ⟨names, some error⟩ ∧ t.locate (pathBelow path names) = .error error

lemma Ends.under {location : Location} {x : Except Obstacle (List (List String))}
    (h : t.Ends (join path name) location x) (hlead : t.root.LeadTo at_ [name] location) :
    t.Ends path at_ (under name x) := by
  rcases h with ⟨found, rfl⟩ | ⟨names, error, hasks, hlimit, rfl, hrefused⟩
  · exact .inl ⟨_, rfl⟩
  · exact .inr ⟨name :: names, error, hasks.cons hlead, hlimit, rfl, hrefused⟩

/-- A walk through an entry ends when it does in the directory that the entry may lead to. -/
theorem ends_filesAt {walk : String → Location → Except Obstacle (List (List String))}
    (ht : t.root.Sound start) (hinside : t.root.Inside start above at_)
    (hat : t.locate path = .ok at_) (hdir : t.root.get? at_ = some (.dir entries))
    (hchild : child? entries name = some e)
    (hwalk : ∀ location below, t.locate (join path name) = .ok location →
      t.root.get? location = some (.dir below) → t.root.Opens at_ location →
      t.Ends (join path name) location (walk (join path name) location)) :
    t.Ends path at_ (t.filesAt walk path above at_ (name, e)) := by
  obtain ⟨hname, hshort, hnull⟩ := ht.of_child hdir hchild
  obtain ⟨location, hlead⟩ :=
    ht.leads at_ entries hinside.reached hdir _ ((ht.distinct.child?_iff hdir).mp hchild)
  have hcases := locate_join_eq_or hat hname hnull hlead
  have henter : ∀ below, t.locate (join path name) = .ok location →
      t.root.get? location = some (.dir below) →
      t.Ends path at_ (under name (walk (join path name) location)) := fun below hlocate hget =>
    (hwalk location below hlocate hget ⟨name, below, hlead, hget⟩).under hlead
  cases e with
  | file bytes => exact .inl ⟨[[name]], rfl⟩
  | dir below =>
    have hasks := FileNode.asks_of_child hdir hchild (by simp)
    rw [filesAt_dir]
    rcases hcases with hlocate | ⟨error, hlimit, hrefused⟩
    · obtain rfl := (FileNode.leadTo_of_child hdir hshort hchild (by simp)).unique hlead
      rw [hlocate]
      exact henter below hlocate (FileNode.get?_concat_eq_some_iff.mpr ⟨entries, hdir, hchild⟩)
    · rw [hrefused]
      exact .inr ⟨[name], error, hasks, hlimit, rfl, hrefused⟩
  | link target =>
    have hasks := FileNode.asks_of_child hdir hchild (by simp)
    rw [filesAt_link]
    rcases hcases with hlocate | ⟨error, hlimit, hrefused⟩
    · obtain ⟨part, hget, hpart⟩ := hlead.stands hdir
      cases part with
      | file bytes => exact .inl ⟨[[name]], by simp only [hlocate, hget]⟩
      | link target => exact absurd rfl (hpart target)
      | dir below =>
        have hopens : t.root.Opens at_ location := ⟨name, below, hlead, hget⟩
        have hfresh : location ∉ at_ :: above := fun hmem =>
          (List.nodup_cons.mp (hinside.enter ht hopens).nodup).1 hmem
        simp only [hlocate, hget, List.contains_eq_mem, hfresh, decide_false, Bool.false_eq_true,
          if_false]
        exact henter below hlocate hget
    · rw [hrefused]
      exact .inr ⟨[name], error, hasks, hlimit, rfl, hrefused⟩

/-- The fuel of a walk is enough to come through all directories, each of which is entered at most
once on the way to another. -/
theorem ends_filesBelow (ht : t.root.Sound start) (hinside : t.root.Inside start above at_)
    (hat : t.locate path = .ok at_) (hdir : t.root.get? at_ = some (.dir entries))
    (hfuel : t.root.count ≤ fuel + above.length) :
    t.Ends path at_ (t.filesBelow fuel path above at_) := by
  induction fuel generalizing path above at_ entries with
  | zero => exact absurd hinside.length_lt (Nat.not_lt.mpr (Nat.zero_add above.length ▸ hfuel))
  | succ fuel ih =>
    have hentries : ∀ entry ∈ entries,
        t.Ends path at_ (t.filesAt (t.past fuel (at_ :: above)) path above at_ entry) := by
      intro ⟨name, e⟩ he
      have hchild := (ht.distinct.child?_iff hdir).mpr he
      refine ends_filesAt ht hinside hat hdir hchild ?_
      intro location below hlocate hget hopens
      refine ih (hinside.enter ht hopens) hlocate hget ?_
      rw [List.length_cons]
      omega
    rcases Except.mapM_cases (t.filesAt (t.past fuel (at_ :: above)) path above at_) entries with
      ⟨groups, hgroups⟩ | ⟨entry, he, o, hfails, hall⟩
    · exact .inl ⟨groups.flatten, (filesBelow_eq_ok_iff hdir).mpr
        ⟨groups, Except.mapM_eq_ok_iff.mp hgroups, rfl⟩⟩
    · rw [filesBelow, hdir]
      simp only [hall]
      change t.Ends path at_ (.error o)
      exact hfails ▸ hentries entry he

/-- Below a directory that a walk has gone through, the system finds every path that it is asked
for. -/
theorem withinLimits_of_filesBelow (ht : t.root.Sound start) {found : List (List String)}
    (h : t.filesBelow fuel path above at_ = .ok found) (hat : t.locate path = .ok at_)
    (hdir : t.root.get? at_ = some (.dir entries)) : t.WithinLimits path at_ := by
  induction fuel generalizing path above at_ found entries with
  | zero => cases h
  | succ fuel ih =>
    obtain ⟨groups, hgroups, rfl⟩ := (filesBelow_eq_ok_iff hdir).mp h
    have hentry : ∀ {name e}, child? entries name = some e → ∃ group,
        t.filesAt (t.past fuel (at_ :: above)) path above at_ (name, e) = .ok group := by
      intro name e hchild
      obtain ⟨group, -, hfiles⟩ :=
        exists_of_mem_left hgroups _ ((ht.distinct.child?_iff hdir).mp hchild)
      exact ⟨group, hfiles⟩
    intro names hasks
    rcases hasks.cases with
      ⟨name, entries', e, rfl, hdir', hchild, he⟩ | ⟨name, rest, location, rfl, hlead, hrest⟩
    · obtain rfl : entries = entries' := FileNode.entries_unique hdir hdir'
      obtain ⟨group, hfiles⟩ := hentry hchild
      exact exists_locate_of_filesAt he hfiles
    · obtain ⟨entries', e, hdir', hchild⟩ := hlead.exists_child
      obtain rfl : entries = entries' := FileNode.entries_unique hdir hdir'
      obtain ⟨hname, hshort, -⟩ := ht.of_child hdir hchild
      obtain ⟨group, hfiles⟩ := hentry hchild
      obtain ⟨location', part, hlead', hget,
        ⟨⟨bytes, rfl⟩, -⟩ | ⟨⟨below, rfl⟩, hlocate, files, hwalk, -⟩⟩ :=
          filesAt_found hat hdir hname hshort hchild hfiles
      · -- nothing is asked for below a file
        obtain rfl := hlead'.unique hlead
        obtain ⟨entries'', hbelow⟩ := hrest.exists_dir
        cases hget.symm.trans hbelow
      · obtain rfl := hlead'.unique hlead
        exact ih hwalk hlocate hget rest hrest

/-- A directory below another is found by its path, if the system finds the paths there. -/
lemma locate_pathBelow_of_dir (ht : t.root.Sound start) (hat : t.locate path = .ok at_)
    (hwithin : t.WithinLimits path at_) {mid : Location} (hlead : t.root.LeadTo at_ names mid)
    (hdir : t.root.get? mid = some (.dir entries)) : t.locate (pathBelow path names) = .ok mid := by
  rcases List.eq_nil_or_concat' names with rfl | ⟨front, name, rfl⟩
  · obtain rfl := FileNode.leadTo_nil.mp hlead
    exact hat
  · obtain ⟨above, hfront, hlast⟩ := FileNode.leadTo_append.mp hlead
    obtain ⟨entries', e, habove, hchild⟩ := hlast.exists_child
    obtain ⟨-, hshort, -⟩ := ht.of_child habove hchild
    have he : ∀ bytes, e ≠ .file bytes := by
      rintro bytes rfl
      obtain rfl := (FileNode.leadTo_of_child habove hshort hchild (by simp)).unique hlast
      cases hdir.symm.trans (FileNode.get?_concat_eq_some_iff.mpr ⟨entries', habove, hchild⟩)
    obtain ⟨location, hlocate⟩ :=
      hwithin (front ++ [name]) ⟨front, name, above, entries', e, rfl, hfront, habove, hchild, he⟩
    obtain rfl := (leadTo_of_locate hat (hlead.isName ht.named) hlocate).unique hlead
    exact hlocate

/-- A regular file below a directory is found by its path, if the system takes the path and finds
the others there. -/
theorem find_pathBelow_of_hasFile (ht : t.root.Sound start) (hat : t.locate path = .ok at_)
    (hwithin : t.WithinLimits path at_) (hfile : t.root.HasFile at_ names)
    (hdir : t.root.get? at_ = some (.dir entries))
    (hfits : refusal? (pathBelow path names) = none) :
    ∃ bytes, t.find (pathBelow path names) = .ok (.file bytes) := by
  have hne := hfile.ne_nil hdir
  obtain ⟨end_, bytes, hlead, hget⟩ := hfile
  have hnames := hlead.isName ht.named
  obtain ⟨front, name, rfl⟩ := (List.eq_nil_or_concat' names).resolve_left hne
  obtain ⟨mid, hfront, hlast⟩ := FileNode.leadTo_append.mp hlead
  obtain ⟨entries', e, hmid, hchild⟩ := hlast.exists_child
  obtain ⟨hname, hshort, -⟩ := ht.of_child hmid hchild
  by_cases hentry : ∃ bytes', e = .file bytes'
  · obtain ⟨bytes', rfl⟩ := hentry
    have hjoin : pathBelow path (front ++ [name]) = join (pathBelow path front) name :=
      List.foldl_concat ..
    have hlocate := locate_join_of_child (locate_pathBelow_of_dir ht hat hwithin hfront hmid)
      hname (hjoin ▸ hfits) hshort hmid hchild (by simp)
    exact ⟨bytes', find_eq_ok_iff.mpr ⟨_, hjoin ▸ hlocate,
      FileNode.get?_concat_eq_some_iff.mpr ⟨entries', hmid, hchild⟩⟩⟩
  · obtain ⟨location, hlocate⟩ := hwithin (front ++ [name])
      ⟨front, name, mid, entries', e, rfl, hfront, hmid, hchild,
        fun bytes' he => hentry ⟨bytes', he⟩⟩
    obtain rfl := (leadTo_of_locate hat hnames hlocate).unique hlead
    exact ⟨bytes, find_eq_ok_iff.mpr ⟨_, hlocate, hget⟩⟩

end FileTree

end CompiledViews
