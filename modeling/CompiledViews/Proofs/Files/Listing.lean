import CompiledViews.Proofs.Files.Sound
import Mathlib.Data.List.Lex
import Mathlib.Data.String.Basic

/-! The files that are listed below a directory are the regular files there whose names match, each
once and in the order of their components. -/

namespace CompiledViews

open CompiledViews.Path

section Order

/-- Which kind of component comes first. -/
def Path.Component.rank : Component → ℕ
  | .root => 0
  | .here => 1
  | .up => 2
  | .name _ => 3

/-- Components come by their kinds, and names by their characters. -/
inductive Path.Component.Before : Component → Component → Prop
  | kind {c d : Component} (h : c.rank < d.rank) : Before c d
  | name {s s' : String} (h : s < s') : Before (.name s) (.name s')

/-- Paths come by their components, one after the other. -/
def Path.Precedes (p q : String) : Prop := List.Lex Component.Before (components p) (components q)

lemma Path.Component.not_before_self (c : Component) : ¬ c.Before c := by
  rintro (h | h)
  · exact Nat.lt_irrefl _ h
  · exact lt_irrefl _ h

lemma Path.Precedes.ne {p q : String} (h : Precedes p q) : p ≠ q := by
  rintro rfl
  exact List.lex_irrefl Component.not_before_self _ h

variable {names names' : List String}

theorem leNames_iff : leNames names names' ↔ names = names' ∨ names < names' := by
  induction names generalizing names' with
  | nil =>
    cases names' with
    | nil => simp [leNames]
    | cons n' names' => simp [leNames]
  | cons n names ih =>
    cases names' with
    | nil => simp [leNames]
    | cons n' names' =>
      rw [leNames, List.cons_lt_cons_iff]
      by_cases hsame : n = n'
      · simp [hsame, ih]
      · simp [hsame]

/-- Names come below a directory as they come on their own. -/
theorem precedes_pathBelow (root : String) (hnames : ∀ n ∈ names, IsName n)
    (hnames' : ∀ n ∈ names', IsName n) (h : names < names') :
    Precedes (pathBelow root names) (pathBelow root names') := by
  have hlex : List.Lex Component.Before (names.map .name) (names'.map .name) := by
    induction h with
    | nil => exact .nil
    | rel hlt => exact .rel (.name hlt)
    | cons _ ih =>
      rw [List.forall_mem_cons] at hnames hnames'
      exact .cons (ih hnames.2 hnames'.2)
  rw [Precedes, components_pathBelow root hnames, components_pathBelow root hnames']
  exact List.Lex.append_left _ hlex _

/-- The paths of files that are found once each come in order, and none comes twice. -/
theorem pairwise_listed (root : String) (wildcard : Wildcard) {found : List (List String)}
    (hfound : found.Nodup) (hnames : ∀ names ∈ found, ∀ n ∈ names, IsName n) :
    (listed root wildcard found).Pairwise Precedes := by
  let matching := found.filter fun names => (names.getLast?.map wildcard.accepts).getD false
  have htrans : ∀ a b c : List String, leNames a b → leNames b c → leNames a c := by
    simp only [leNames_iff, ← le_iff_eq_or_lt]
    exact fun _ _ _ => le_trans
  have htotal : ∀ a b : List String, leNames a b || leNames b a := by
    simp only [Bool.or_eq_true, leNames_iff, ← le_iff_eq_or_lt]
    exact le_total
  have hsorted : (matching.mergeSort leNames).Pairwise fun a b => leNames a b :=
    List.pairwise_mergeSort htrans htotal matching
  have hnodup : (matching.mergeSort leNames).Nodup :=
    (List.mergeSort_perm matching leNames).nodup_iff.mpr (hfound.filter _)
  refine List.pairwise_map.mpr ((hsorted.and hnodup).imp_of_mem fun ha hb hlt => ?_)
  have hmem : ∀ names ∈ matching.mergeSort leNames, ∀ n ∈ names, IsName n := fun names h =>
    hnames names (List.mem_of_mem_filter (List.mem_mergeSort.mp h))
  exact precedes_pathBelow root (hmem _ ha) (hmem _ hb) ((leNames_iff.mp hlt.1).resolve_left hlt.2)

end Order

section Listing

variable {t : FileTree} {root pattern : String} {wildcard : Wildcard} {found : List (List String)}

lemma mem_listed_iff {path : String} : path ∈ listed root wildcard found ↔
    ∃ names name, names ++ [name] ∈ found ∧ wildcard.accepts name ∧
      path = pathBelow root (names ++ [name]) := by
  simp only [listed, List.mem_map, List.mem_mergeSort, List.mem_filter]
  constructor
  · rintro ⟨names, ⟨hmem, haccepts⟩, rfl⟩
    rcases List.eq_nil_or_concat names with rfl | ⟨names, name, rfl⟩
    · cases haccepts
    · rw [List.concat_eq_append] at hmem haccepts ⊢
      exact ⟨names, name, hmem, by simpa using haccepts, rfl⟩
  · rintro ⟨names, name, hmem, haccepts, rfl⟩
    exact ⟨_, ⟨hmem, by simpa using haccepts⟩, rfl⟩

lemma listMatching_of_not_isDir (hwildcard : Wildcard.ofText pattern = .ok wildcard)
    (h : t.isDir root = false) : listMatching t root pattern = .ok [] := by
  refine listMatching_eq_ok_iff.mpr ⟨wildcard, hwildcard, ?_⟩
  cases hlocate : t.locate root with
  | error e => exact .inl ⟨⟨e, rfl⟩, rfl⟩
  | ok start =>
    refine .inr ⟨start, [], rfl, ?_, by simp [listed]⟩
    rw [FileTree.filesBelow]
    split
    case h_1 entries hdir => exact absurd (FileTree.isDir_of_locate hlocate hdir) (by simp [h])
    case h_2 => rfl

/-- When a walk below a directory comes to its end, what is listed are the regular files there whose
own names match, in order and each once. -/
theorem listed_files {start : Location} (ht : t.root.Sound start) {fuel : ℕ}
    {entries : List (String × FileNode)} (wildcard : Wildcard)
    (hfound : t.filesBelow fuel root [] start = .ok found) (hstart : t.locate root = .ok start)
    (hget : t.root.get? start = some (.dir entries)) :
    (listed root wildcard found).Pairwise Precedes ∧
      ∀ path, path ∈ listed root wildcard found ↔
        ∃ names name, path = pathBelow root (names ++ [name]) ∧
          t.root.HasFile start (names ++ [name]) ∧ wildcard.accepts name := by
  have hmem :=
    FileTree.mem_filesBelow_iff ht.named ht.distinct ht.storable hfound hstart hget
  have hnames : ∀ names ∈ found, ∀ n ∈ names, IsName n := fun names h => by
    obtain ⟨end_, bytes, hlead, -⟩ := (hmem names).mp h
    exact hlead.isName ht.named
  refine ⟨pairwise_listed root wildcard (FileTree.nodup_filesBelow ht.distinct hfound) hnames,
    fun path => ?_⟩
  simp only [mem_listed_iff, hmem]
  constructor
  · rintro ⟨names, name, hfile, haccepts, rfl⟩
    exact ⟨names, name, rfl, hfile, haccepts⟩
  · rintro ⟨names, name, rfl, hfile, haccepts⟩
    exact ⟨names, name, hfile, haccepts, rfl⟩

/-- No regular file below a directory is a directory by its path. -/
lemma isDir_pathBelow_of_hasFile {start : Location} (ht : t.root.Sound start)
    (hstart : t.locate root = .ok start) {names : List String}
    (hfile : t.root.HasFile start names) : t.isDir (pathBelow root names) = false := by
  obtain ⟨end_, bytes, hlead, hget⟩ := hfile
  refine Bool.eq_false_iff.mpr fun hdir => ?_
  obtain ⟨location, entries, hlocate, hbelow⟩ := FileTree.isDir_iff.mp hdir
  obtain rfl :=
    hlead.unique (FileTree.leadTo_of_locate hstart (hlead.isName ht.named) hlocate)
  cases hget.symm.trans hbelow

/-- What is listed below a directory are the regular files there whose own names match, in order and
each once, as long as the system takes each path that the walk asks it for; else the listing fails
with what the system says of such a path. -/
theorem listMatching_lists_files (t : FileTree) (root pattern : String) :
    (∀ fault, Wildcard.ofText pattern = .error fault →
      listMatching t root pattern = .error (.pattern pattern fault)) ∧
    ∀ wildcard, Wildcard.ofText pattern = .ok wildcard →
      (t.isDir root = false → listMatching t root pattern = .ok []) ∧
      ∀ start, t.isDir root → t.locate root = .ok start → t.root.Sound start →
        (t.WithinLimits root start → ∃ files, listMatching t root pattern = .ok files ∧
          files.Pairwise Precedes ∧ files.Nodup ∧ (∀ path ∈ files, t.isDir path = false) ∧
          (∀ path ∈ files, FileTree.refusal? path = none →
            ∃ bytes, t.find path = .ok (.file bytes)) ∧
          ∀ path, path ∈ files ↔ ∃ names name, path = pathBelow root (names ++ [name]) ∧
            t.root.HasFile start (names ++ [name]) ∧ wildcard.accepts name) ∧
        (¬ t.WithinLimits root start → ∃ names error, t.root.Asks start names ∧
          FileTree.IsLimit error ∧ t.locate (pathBelow root names) = .error error ∧
          listMatching t root pattern = .error (.unreadable (pathBelow root names) error)) := by
  refine ⟨fun fault hfault => by rw [listMatching, hfault], fun wildcard hwildcard =>
    ⟨listMatching_of_not_isDir hwildcard, fun start hdir hstart ht => ?_⟩⟩
  obtain ⟨start', entries, hstart', hget⟩ := FileTree.isDir_iff.mp hdir
  obtain rfl : start' = start := Except.ok.inj (hstart'.symm.trans hstart)
  have hfuel : t.root.count ≤
      t.root.count * t.root.count + t.root.count + 1 + ([] : List Location).length := by
    rw [List.length_nil]
    omega
  rcases FileTree.ends_filesBelow ht (.of_dir hget) hstart hget hfuel with
    ⟨found, hfound⟩ | ⟨names, error, hasks, hlimit, hfails, hrefused⟩
  · have hwithin := FileTree.withinLimits_of_filesBelow ht hfound hstart hget
    obtain ⟨hpairwise, hfiles⟩ := listed_files ht wildcard hfound hstart hget
    have hlisted : listMatching t root pattern = .ok (listed root wildcard found) :=
      listMatching_eq_ok_iff.mpr
        ⟨wildcard, hwildcard, .inr ⟨start', found, hstart, hfound, rfl⟩⟩
    refine ⟨fun _ => ⟨_, hlisted, hpairwise, hpairwise.imp Path.Precedes.ne, ?_, ?_, hfiles⟩,
      fun hnot => absurd hwithin hnot⟩
    · intro path hpath
      obtain ⟨names, name, rfl, hfile, -⟩ := (hfiles path).mp hpath
      exact isDir_pathBelow_of_hasFile ht hstart hfile
    · intro path hpath hfits
      obtain ⟨names, name, rfl, hfile, -⟩ := (hfiles path).mp hpath
      exact FileTree.find_pathBelow_of_hasFile ht hstart hwithin hfile hget hfits
  · refine ⟨fun hwithin => ?_, fun _ => ⟨names, error, hasks, hlimit, hrefused, ?_⟩⟩
    · obtain ⟨location, hlocate⟩ := hwithin names hasks
      cases hrefused.symm.trans hlocate
    · simp only [listMatching, hwildcard, hstart, hfails]

end Listing

section Detour

open FileNode

/-- A directory of templates, and a link to it beside it that leads there from the root. The working
directory is another one. -/
def linkedViews : FileTree where
  root := .dir [("h", .dir []),
    ("v", .dir [("a", .dir [("x.hbs", .file [120])]), ("l", .link "/v/a")])]
  home := ["h"]

namespace linkedViews

variable {location : Location} {entries : List (String × FileNode)} {name : String}
  {names : List String}

lemma get?_v : linkedViews.root.get? ["v"] =
    some (.dir [("a", .dir [("x.hbs", .file [120])]), ("l", .link "/v/a")]) := rfl

lemma get?_a : linkedViews.root.get? ["v", "a"] = some (.dir [("x.hbs", .file [120])]) := rfl

lemma steps_target : steps "/v/a" = [.root, .name "v", .name "a"] := by decide

lemma short : ∀ s ∈ ["h", "v", "a", "l", "x.hbs"], Text.Utf8.size s ≤ maxNameBytes := by
  decide

lemma leads_link {links links' : ℕ} {cs : List Component}
    (h : linkedViews.root.Leads (fun _ => true) links ["v", "a"] cs links' location) :
    linkedViews.root.Leads (fun _ => true) (links + 1) ["v"] (.name "l" :: cs) links' location := by
  have hroot : linkedViews.root.get? [] = some linkedViews.root := rfl
  refine .link rfl get?_v (short _ (by simp)) rfl (by decide) ?_
  rw [steps_target]
  exact .root (.name rfl hroot (short _ (by simp)) rfl (by simp)
    (.name rfl get?_v (short _ (by simp)) rfl (by simp) h))

lemma leadTo_a : linkedViews.root.LeadTo ["v"] ["a"] ["v", "a"] :=
  leadTo_of_child get?_v (short _ (by simp)) rfl (by simp)

lemma leadTo_l : linkedViews.root.LeadTo ["v"] ["l"] ["v", "a"] :=
  ⟨1, (leads_link .stay).follow_eq⟩

lemma leadTo_x : linkedViews.root.LeadTo ["v", "a"] ["x.hbs"] ["v", "a", "x.hbs"] :=
  leadTo_of_child get?_a (short _ (by simp)) rfl (by simp)

lemma of_leadTo_v (h : linkedViews.root.LeadTo ["v"] [name] location) :
    (name = "a" ∨ name = "l") ∧ location = ["v", "a"] := by
  obtain ⟨entries, e, hdir, hchild⟩ := h.exists_child
  obtain rfl := entries_unique get?_v hdir
  by_cases ha : "a" = name
  · obtain rfl := ha
    exact ⟨.inl rfl, h.unique leadTo_a⟩
  · by_cases hl : "l" = name
    · obtain rfl := hl
      exact ⟨.inr rfl, h.unique leadTo_l⟩
    · simp [child?, ha, hl] at hchild

lemma of_leadTo_a (h : linkedViews.root.LeadTo ["v", "a"] [name] location) :
    name = "x.hbs" ∧ location = ["v", "a", "x.hbs"] := by
  obtain ⟨entries, e, hdir, hchild⟩ := h.exists_child
  obtain rfl := entries_unique get?_a hdir
  by_cases hx : "x.hbs" = name
  · obtain rfl := hx
    exact ⟨rfl, h.unique leadTo_x⟩
  · simp [child?, hx] at hchild

lemma not_opens_a : ¬ linkedViews.root.Opens ["v", "a"] location := by
  rintro ⟨name, entries, hlead, hget⟩
  obtain ⟨-, rfl⟩ := of_leadTo_a hlead
  cases hget

lemma of_opens_v (h : linkedViews.root.Opens ["v"] location) : location = ["v", "a"] := by
  obtain ⟨name, entries, hlead, -⟩ := h
  exact (of_leadTo_v hlead).2

lemma eq_of_reached_a (h : Relation.ReflTransGen linkedViews.root.Opens ["v", "a"] location) :
    location = ["v", "a"] := by
  rcases h.cases_head with rfl | ⟨mid, hopens, -⟩
  · rfl
  · exact absurd hopens not_opens_a

lemma of_reached (h : Relation.ReflTransGen linkedViews.root.Opens ["v"] location) :
    location = ["v"] ∨ location = ["v", "a"] := by
  rcases h.cases_head with rfl | ⟨mid, hopens, hrest⟩
  · exact .inl rfl
  · obtain rfl := of_opens_v hopens
    exact .inr (eq_of_reached_a hrest)

/-- The directories, each with the names in it. -/
def contents : List (Location × List String) :=
  [([], ["h", "v"]), (["h"], []), (["v"], ["a", "l"]), (["v", "a"], ["x.hbs"])]

lemma mem_contents (h : linkedViews.root.get? location = some (.dir entries)) :
    (location, entries.map Prod.fst) ∈ contents := by
  have hmem := mem_directories h
  have hdirectories : linkedViews.root.directories = [[], ["h"], ["v"], ["v", "a"]] := by
    simp [linkedViews, directories, directories.directoriesAll]
  rw [hdirectories] at hmem
  simp only [List.mem_cons, List.not_mem_nil, or_false] at hmem
  rcases hmem with rfl | rfl | rfl | rfl <;>
    · simp [linkedViews, get?, child?] at h
      simp [contents, ← h]

lemma sound : linkedViews.root.Sound ["v"] where
  named := wellNamed_of_hasNames (by decide)
  distinct := fun location entries h => by
    have hall : ∀ c ∈ contents, c.2.Nodup := by decide
    exact hall _ (mem_contents h)
  storable := fun location entries h entry he => by
    have hall : ∀ c ∈ contents, ∀ s ∈ c.2, Text.Utf8.size s ≤ maxNameBytes ∧ '\x00' ∉ s.toList := by
      decide
    exact hall _ (mem_contents h) _ (List.mem_map_of_mem he)
  leads := fun location entries hreached h entry he => by
    rcases of_reached hreached with rfl | rfl
    · obtain rfl := entries_unique get?_v h
      simp only [List.mem_cons, List.not_mem_nil, or_false] at he
      rcases he with rfl | rfl
      · exact ⟨_, leadTo_a⟩
      · exact ⟨_, leadTo_l⟩
    · obtain rfl := entries_unique get?_a h
      obtain rfl := List.mem_singleton.mp he
      exact ⟨_, leadTo_x⟩
  acyclic := fun location hreached hloop => by
    obtain ⟨mid, hopens, hrest⟩ := Relation.TransGen.head'_iff.mp hloop
    rcases of_reached hreached with rfl | rfl
    · obtain rfl := of_opens_v hopens
      cases eq_of_reached_a hrest
    · exact not_opens_a hopens

lemma not_asks_a : ¬ linkedViews.root.Asks ["v", "a"] names := by
  intro h
  rcases h.cases with ⟨name, entries, e, -, hdir, hchild, he⟩ | ⟨name, rest, mid, -, hlead, hrest⟩
  · obtain rfl := entries_unique get?_a hdir
    by_cases hx : "x.hbs" = name
    · exact he [120] (by simpa [child?, hx, eq_comm] using hchild)
    · simp [child?, hx] at hchild
  · obtain ⟨-, rfl⟩ := of_leadTo_a hlead
    obtain ⟨entries, hdir⟩ := hrest.exists_dir
    cases hdir

lemma of_asks (h : linkedViews.root.Asks ["v"] names) : names = ["a"] ∨ names = ["l"] := by
  rcases h.cases with ⟨name, entries, e, rfl, hdir, hchild, -⟩ | ⟨name, rest, mid, -, hlead, hrest⟩
  · obtain rfl := entries_unique get?_v hdir
    by_cases ha : "a" = name
    · exact .inl (by rw [ha])
    · by_cases hl : "l" = name
      · exact .inr (by rw [hl])
      · simp [child?, ha, hl] at hchild
  · obtain ⟨-, rfl⟩ := of_leadTo_v hlead
    exact absurd hrest not_asks_a

/-- Where the path from the working directory leads, and what comes after it. -/
lemma leads_up {links links' : ℕ} {cs : List Component}
    (h : linkedViews.root.Leads (fun _ => true) links ["v"] cs links' location) :
    linkedViews.root.Leads (fun _ => true) links ["h"] (.up :: .name "v" :: cs) links'
      location := by
  have hhome : linkedViews.root.get? ["h"] = some (.dir []) := rfl
  have hroot : linkedViews.root.get? [] = some linkedViews.root := rfl
  exact .up hhome (.name rfl hroot (short _ (by simp)) rfl (by simp) h)

lemma locate_v : linkedViews.locate "../v" = .ok ["v"] :=
  FileTree.locate_of_leads [.up, .name "v"] (by decide) (by decide) (leads_up .stay)

lemma withinLimits : linkedViews.WithinLimits "../v" ["v"] := by
  intro names hasks
  rcases of_asks hasks with rfl | rfl
  · exact ⟨["v", "a"],
      FileTree.locate_of_leads [.up, .name "v", .name "a"] (by decide) (by decide)
        (leads_up (.name rfl get?_v (short _ (by simp)) rfl (by simp) .stay))⟩
  · exact ⟨["v", "a"],
      FileTree.locate_of_leads [.up, .name "v", .name "l"] (by decide) (by decide)
        (leads_up (leads_link .stay))⟩

/-- The directory, by a path that goes through the link and back time and again. -/
def detour : ℕ → String
  | 0 => "../v"
  | n + 1 => detour n ++ "/l/.."

lemma toList_detour (n : ℕ) :
    (detour (n + 1)).toList = (detour n).toList ++ ['/', 'l', '/', '.', '.'] := by
  rw [detour, String.toList_append]
  rfl

lemma detour_ne_empty (n : ℕ) : (detour n).toList ≠ [] := by
  cases n with
  | zero => decide
  | succ n => simp [toList_detour]

lemma components_detour (n : ℕ) : components (detour n) =
    .up :: .name "v" :: (List.replicate n [Component.name "l", .up]).flatten := by
  induction n with
  | zero => decide
  | succ n ih =>
    have hback : (Text.splitList isSlash ['l', '/', '.', '.']).filterMap ofPiece =
        [Component.name "l", .up] := by decide
    rw [components, toList_detour, componentsList_append_slash,
      componentsList_concat_slash (detour_ne_empty n), hback, ← components, ih,
      List.replicate_succ', List.flatten_append]
    rfl

lemma size_detour (n : ℕ) : Text.Utf8.size (detour n) = 4 + 5 * n := by
  induction n with
  | zero => decide
  | succ n ih =>
    have hback : (['/', 'l', '/', '.', '.'].flatMap Text.Utf8.encodeChar).length = 5 := by decide
    rw [Text.Utf8.size, Text.Utf8.encode, toList_detour, List.flatMap_append, List.length_append,
      hback, ← Text.Utf8.encode, ← Text.Utf8.size, ih]
    omega

lemma null_not_mem_detour (n : ℕ) : '\x00' ∉ (detour n).toList := by
  induction n with
  | zero => decide
  | succ n ih =>
    rw [toList_detour, List.mem_append]
    rintro (h | h)
    · exact ih h
    · exact absurd h (by decide)

lemma refusal?_detour : FileTree.refusal? (detour 40) = none :=
  FileTree.refusal?_eq_none_iff.mpr ⟨fun he => detour_ne_empty 40 (by rw [he]; rfl),
    null_not_mem_detour 40, by rw [size_detour]; decide⟩

lemma refusal?_below_detour {name : String} (hname : IsName name) (hnull : '\x00' ∉ name.toList)
    (hsize : Text.Utf8.size name ≤ maxNameBytes) :
    FileTree.refusal? (join (detour 40) name) = none := by
  refine FileTree.refusal?_join_of_size_le refusal?_detour hname hnull ?_
  simp only [size_detour, FileTree.maxPathBytes, maxNameBytes] at hsize ⊢
  omega

/-- Each time the link is followed, one link less is left. -/
lemma leads_back (links : ℕ) : ∀ n, linkedViews.root.Leads (fun _ => true) (links + n) ["v"]
    (List.replicate n [Component.name "l", .up]).flatten links ["v"]
  | 0 => .stay
  | n + 1 => leads_link (.up get?_a (leads_back links n))

lemma leads_detour :
    linkedViews.root.Leads (fun _ => true) maxLinks ["h"] (components (detour 40)) 0 ["v"] := by
  rw [components_detour]
  exact leads_up (leads_back 0 40)

lemma locate_detour : linkedViews.locate (detour 40) = .ok ["v"] :=
  FileTree.locate_of_leads _ refusal?_detour rfl (leads_detour.steps_of_dir get?_v)

lemma locate_detour_a : linkedViews.locate (join (detour 40) "a") = .ok ["v", "a"] :=
  FileTree.locate_of_leads _ (refusal?_below_detour (by decide) (by decide) (short _ (by simp)))
    (FileTree.steps_join (FileTree.ne_empty_of_refusal? refusal?_detour) (by decide))
    (leads_detour.append (.name rfl get?_v (short _ (by simp)) rfl (by simp) .stay))

lemma locate_detour_link : linkedViews.locate (join (detour 40) "l") = .error .tooManyLinks := by
  have hshort := short "l" (by simp)
  have hfits : FileTree.refusal? (join (detour 40) "l") = none :=
    refusal?_below_detour (by decide) (by decide) hshort
  rw [FileTree.locate, hfits,
    FileTree.steps_join (FileTree.ne_empty_of_refusal? refusal?_detour) (by decide)]
  refine (leads_detour.follow_append [.name "l"]).trans ?_
  rw [follow, if_neg Bool.noConfusion, get?_v]
  simp [child?, Nat.not_lt.mpr hshort]

lemma filesBelow_a (fuel : ℕ) (path : String) (above : List Location) :
    linkedViews.filesBelow (fuel + 1) path above ["v", "a"] = .ok [["x.hbs"]] := by
  rw [FileTree.filesBelow, get?_a]
  rfl

/-- A walk from where no link is left fails at the next one. -/
lemma listMatching_eq_error {path : String} (hstart : linkedViews.locate path = .ok ["v"])
    (ha : linkedViews.locate (join path "a") = .ok ["v", "a"])
    (hl : linkedViews.locate (join path "l") = .error .tooManyLinks) :
    listMatching linkedViews path "*.hbs" =
      .error (.unreadable (pathBelow path ["l"]) .tooManyLinks) := by
  have hfuel : linkedViews.root.count * linkedViews.root.count + linkedViews.root.count + 1 =
      41 + 1 + 1 := by decide
  have hfails : linkedViews.filesBelow (41 + 1 + 1) path [] ["v"] =
      .error ⟨["l"], some .tooManyLinks⟩ := by
    rw [FileTree.filesBelow, get?_v]
    simp only [List.mapM_cons, FileTree.filesAt_dir, FileTree.filesAt_link, ha, hl, filesBelow_a]
    rfl
  rw [listMatching, Wildcard.ofText_templates, hstart]
  simp only [hfuel, hfails]

/-- The directory, by a path that starts with many slashes. -/
def slashes (n : ℕ) : String := String.ofList (List.replicate n '/' ++ ['v'])

lemma toList_slashes (n : ℕ) : (slashes n).toList = List.replicate n '/' ++ ['v'] :=
  String.toList_ofList

lemma size_slashes (n : ℕ) : Text.Utf8.size (slashes n) = n + 1 := by
  have hslash : Text.Utf8.encodeChar '/' = [47] := by decide
  have hv : Text.Utf8.encodeChar 'v' = [118] := by decide
  simp [Text.Utf8.size, Text.Utf8.encode, toList_slashes, hslash, hv]

lemma refusal?_slashes {n : ℕ} (h : FileTree.maxPathBytes ≤ n) :
    FileTree.refusal? (slashes n) = some .nameTooLong := by
  have hne : slashes n ≠ "" := fun he => by simpa [he] using toList_slashes n
  have hnull : '\x00' ∉ (slashes n).toList := by simp [toList_slashes]
  rw [FileTree.refusal?, if_neg (by simpa using hne), if_neg (by simpa using hnull), size_slashes,
    if_pos (Nat.lt_succ_of_le h)]

lemma componentsList_replicate_slash (n : ℕ) :
    componentsList (List.replicate (n + 1) '/') = [.root] := by
  induction n with
  | zero => rfl
  | succ n ih => rw [List.replicate_succ', componentsList_concat_slash (by simp), ih]

lemma components_slashes (n : ℕ) : components (slashes (n + 1)) = components "/v" := by
  rw [components, toList_slashes, List.replicate_succ', List.append_assoc, List.singleton_append,
    componentsList_append_slash, ← List.replicate_succ', componentsList_replicate_slash]
  decide

end linkedViews

open linkedViews in
theorem listMatching_lists_files_linked :
    linkedViews.root.Sound ["v"] ∧ linkedViews.isDir "../v" ∧
      linkedViews.locate "../v" = .ok ["v"] ∧ linkedViews.WithinLimits "../v" ["v"] ∧
      ¬ linkedViews.WithinLimits (detour 40) ["v"] ∧
      (∃ files, listMatching linkedViews "../v" "*.hbs" = .ok files ∧ files.Pairwise Precedes ∧
        "../v/a/x.hbs" ∈ files ∧ "../v/l/x.hbs" ∈ files) ∧
      (∃ names error, listMatching linkedViews (detour 40) "*.hbs" =
        .error (.unreadable (pathBelow (detour 40) names) error)) ∧
      listMatching linkedViews "w" "*.hbs" = .ok [] ∧
      listMatching linkedViews "w" "[" = .error (.pattern "[" ⟨0, .range⟩) := by
  have hdir : linkedViews.isDir "../v" := FileTree.isDir_of_locate locate_v get?_v
  have hdetour : linkedViews.isDir (detour 40) := FileTree.isDir_of_locate locate_detour get?_v
  have hoverlinked : ¬ linkedViews.WithinLimits (detour 40) ["v"] := fun h => by
    obtain ⟨location, hlocate⟩ := h ["l"] (asks_of_child get?_v rfl (by simp))
    rw [pathBelow, List.foldl_cons, List.foldl_nil, locate_detour_link] at hlocate
    cases hlocate
  have hmissing : linkedViews.isDir "w" = false :=
    FileTree.isDir_name_of_no_child (by decide) rfl rfl
  have hfile : ∀ name, linkedViews.root.LeadTo ["v"] [name] ["v", "a"] →
      linkedViews.root.HasFile ["v"] ([name] ++ ["x.hbs"]) := fun name hname =>
    ⟨_, [120], leadTo_append.mpr ⟨_, hname, leadTo_x⟩, rfl⟩
  have haccepts : Wildcard.templates.accepts "x.hbs" := by decide
  obtain ⟨-, hlists⟩ := listMatching_lists_files linkedViews "../v" "*.hbs"
  obtain ⟨-, hlists⟩ := hlists _ Wildcard.ofText_templates
  obtain ⟨files, hfiles, hpairwise, -, -, -, hmem⟩ :=
    (hlists ["v"] hdir locate_v sound).1 withinLimits
  obtain ⟨-, hfails⟩ := listMatching_lists_files linkedViews (detour 40) "*.hbs"
  obtain ⟨-, hfails⟩ := hfails _ Wildcard.ofText_templates
  obtain ⟨names, error, -, -, -, hnames⟩ :=
    (hfails ["v"] hdetour locate_detour sound).2 hoverlinked
  refine ⟨sound, hdir, locate_v, withinLimits, hoverlinked, ⟨files, hfiles, hpairwise, ?_, ?_⟩,
    ⟨names, error, hnames⟩, ?_, ?_⟩
  · exact (hmem _).mpr ⟨["a"], "x.hbs", by decide, hfile "a" leadTo_a, haccepts⟩
  · exact (hmem _).mpr ⟨["l"], "x.hbs", by decide, hfile "l" leadTo_l, haccepts⟩
  · exact ((listMatching_lists_files linkedViews "w" "*.hbs").2 _ Wildcard.ofText_templates).1
      hmissing
  · exact (listMatching_lists_files linkedViews "w" "[").1 _ (by decide +kernel)

open linkedViews in
/-- The links are as they should be, and there is a template; and yet the listing fails for a path
that takes the detour, and there is nothing in it for a path that is too long. -/
theorem listMatching_detour_fails :
    linkedViews.root.Sound ["v"] ∧ linkedViews.root.HasFile ["v"] ["a", "x.hbs"] ∧
      Wildcard.ofText "*.hbs" = .ok Wildcard.templates ∧ Wildcard.templates.accepts "x.hbs" ∧
      (linkedViews.locate (detour 40) = .ok ["v"] ∧ listMatching linkedViews (detour 40) "*.hbs" =
        .error (.unreadable (pathBelow (detour 40) ["l"]) .tooManyLinks)) ∧
      components (slashes 4096) = components "/v" ∧ linkedViews.locate "/v" = .ok ["v"] ∧
        listMatching linkedViews (slashes 4096) "*.hbs" = .ok [] := by
  have hroot : linkedViews.root.get? [] = some linkedViews.root := rfl
  have hplain : linkedViews.locate "/v" = .ok ["v"] :=
    FileTree.locate_of_leads [.root, .name "v"] (by decide) (by decide)
      (.root (.name rfl hroot (short _ (by simp)) rfl (by simp) .stay))
  have hnone : linkedViews.isDir (slashes 4096) = false := by
    rw [FileTree.isDir, FileTree.find, FileTree.locate,
      refusal?_slashes (n := 4096) (Nat.le_succ _)]
    rfl
  exact ⟨sound, ⟨_, [120], leadTo_append.mpr ⟨_, leadTo_a, leadTo_x⟩, rfl⟩,
    Wildcard.ofText_templates, by decide,
    ⟨locate_detour, listMatching_eq_error locate_detour locate_detour_a locate_detour_link⟩,
    components_slashes 4095, hplain, listMatching_of_not_isDir Wildcard.ofText_templates hnone⟩

end Detour

end CompiledViews
