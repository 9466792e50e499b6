import CompiledViews.Proofs.Path.Logical
import Mathlib.Data.Set.List

/-! Files below a directory, as their resolved paths tell. A file with a logical path lies below the
directory, unless both are steps up from where one is and the file is further up. -/

namespace CompiledViews.Path

namespace Resolved

variable {r d : Resolved} {rest : List Component}

/-- Names lead down from a directory to a path. -/
def IsBelow (r d : Resolved) : Prop :=
  ∃ names : List String, names ≠ [] ∧ r.components = d.components ++ names.map .name

/-- Names lead down from a directory to a path, or the path is the directory. -/
def IsAtOrBelow (r d : Resolved) : Prop :=
  ∃ names : List String, r.components = d.components ++ names.map .name

lemma IsAtOrBelow.isPrefix (h : r.IsAtOrBelow d) : d.components <+: r.components := by
  obtain ⟨names, hnames⟩ := h
  exact ⟨names.map .name, hnames.symm⟩

/-- What takes back no name of a path lies below it, or is the path. -/
lemma isAtOrBelow_append (d : Resolved) {s : Resolved} (h : s.ups = 0) :
    (d.append s).IsAtOrBelow d :=
  ⟨_, components_append d h⟩

/-- A directory is nothing but steps up, and a path goes further up. -/
def ClimbsPast (r d : Resolved) : Prop :=
  r.absolute = false ∧ d.absolute = false ∧ d.names = [] ∧ 0 < d.ups ∧ d.ups < r.ups

instance (r d : Resolved) : Decidable (r.ClimbsPast d) :=
  inferInstanceAs (Decidable (_ ∧ _ ∧ _ ∧ _ ∧ _))

/-- The root and the steps up come first, and the root stands alone. -/
lemma pairwise_components (r : Resolved) :
    r.components.Pairwise fun a b => b ≠ .root ∧ (b = .up → a = .up) := by
  rw [components, List.pairwise_append]
  refine ⟨?_, ?_, ?_⟩
  · split
    case isTrue => exact List.pairwise_singleton _ _
    case isFalse => exact List.pairwise_replicate.mpr (.inr (by simp))
  · apply List.pairwise_map.mpr
    exact List.pairwise_of_forall (by simp)
  · intro a _ b hb
    obtain ⟨s, -, rfl⟩ := List.mem_map.mp hb
    simp

lemma count_up_components (r : Resolved) :
    r.components.count .up = if r.absolute then 0 else r.ups := by
  have hnames : (r.names.reverse.map Component.name).count .up = 0 := by
    apply List.count_eq_zero.mpr
    simp
  rw [components, List.count_append, hnames]
  split <;> simp

@[simp] lemma name_mem_components {s : String} : .name s ∈ r.components ↔ s ∈ r.names := by
  rw [components, List.mem_append]
  split <;> simp

/-- A step up beyond a directory makes the directory nothing but steps up. -/
theorem climbsPast_of_up_mem (h : r.components = d.components ++ rest) (hne : d.components ≠ [])
    (hup : .up ∈ rest) : r.ClimbsPast d := by
  have hpair := r.pairwise_components
  rw [h, List.pairwise_append] at hpair
  have hall : ∀ c ∈ d.components, c = .up := fun c hc => (hpair.2.2 c hc _ hup).2 rfl
  have habsolute : d.absolute = false := by
    apply Bool.eq_false_iff.mpr
    intro habs
    exact absurd (hall .root (by simp [components, habs])) (by simp)
  have hnames : d.names = [] := by
    apply List.eq_nil_iff_forall_not_mem.mpr
    intro s hs
    exact absurd (hall (.name s) (by simpa using hs)) (by simp)
  have hpos : d.ups ≠ 0 := by
    intro hzero
    apply hne
    simp [components, habsolute, hnames, hzero]
  -- The steps up of the path are those of the directory and at least one more.
  have hcount := r.count_up_components
  have hmore : 0 < rest.count .up := List.count_pos_iff.mpr hup
  rw [h, List.count_append, d.count_up_components, habsolute] at hcount
  cases hr : r.absolute with
  | true => simp [hr] at hcount; omega
  | false =>
    simp only [hr, Bool.false_eq_true, if_false] at hcount
    exact ⟨hr, habsolute, hnames, by omega, by omega⟩

/-- What a path has beyond a directory are names, if there is no step up. -/
theorem exists_names_of_up_not_mem (h : r.components = d.components ++ rest)
    (hne : d.components ≠ []) (hup : .up ∉ rest) :
    ∃ names : List String, rest = names.map .name := by
  have hpair := r.pairwise_components
  rw [h, List.pairwise_append] at hpair
  obtain ⟨first, hfirst⟩ := List.exists_mem_of_ne_nil _ hne
  have hname : ∀ c ∈ rest, c ∈ Set.range Component.name := by
    intro c hc
    cases c with
    | root => exact absurd rfl (hpair.2.2 first hfirst _ hc).1
    | here => exact absurd (h ▸ List.mem_append_right _ hc) r.here_not_mem_components
    | up => exact absurd hc hup
    | name s => exact ⟨s, rfl⟩
  have hrange : rest ∈ Set.range (List.map Component.name) := by
    rw [Set.range_list_map]
    exact hname
  obtain ⟨names, hnames⟩ := hrange
  exact ⟨names, hnames.symm⟩

/-- A path that climbs past a directory begins with the steps up to the directory, and goes on with
another one. -/
lemma ClimbsPast.exists_rest (h : r.ClimbsPast d) :
    ∃ rest, .up ∈ rest ∧ r.components = d.components ++ rest := by
  obtain ⟨hr, hd, hnames, -, hlt⟩ := h
  refine ⟨List.replicate (r.ups - d.ups) .up ++ r.names.reverse.map .name, ?_, ?_⟩
  · apply List.mem_append_left
    exact List.mem_replicate.mpr ⟨by omega, rfl⟩
  · have hups : List.replicate r.ups Component.up =
        List.replicate d.ups .up ++ List.replicate (r.ups - d.ups) .up := by
      rw [← List.replicate_add]
      congr 1
      omega
    rw [components, components, hr, hd, hnames]
    simp only [Bool.false_eq_true, if_false, List.reverse_nil, List.map_nil, List.append_nil, hups,
      List.append_assoc]

end Resolved

variable {root file : String}

/-- A normalized file has more than the normalized directory just as the resolved ones do. Where the
directory is written as a dot, no file has. -/
lemma components_normalize_eq_append_iff {rest : List Component} (hne : rest ≠ []) :
    components (normalize file) = components (normalize root) ++ rest ↔
      (resolve root).components ≠ [] ∧
        (resolve file).components = (resolve root).components ++ rest := by
  rw [components_normalize file, components_normalize root]
  by_cases hroot : (resolve root).components = []
  · have hno : ¬((if (resolve file).components.isEmpty then [.here] else
        (resolve file).components) = .here :: rest) := by
      intro hfile
      split at hfile
      case isTrue => exact hne (List.cons.inj hfile).2.symm
      case isFalse =>
        exact (resolve file).here_not_mem_components (hfile ▸ List.mem_cons_self)
    simpa [hroot] using hno
  · have hstart : (resolve root).components.isEmpty = false := by simpa using hroot
    simp only [hstart, Bool.false_eq_true, if_false, ne_eq, hroot, not_false_eq_true, true_and]
    split
    case isFalse => rfl
    case isTrue hfile =>
      rw [List.isEmpty_iff.mp hfile]
      refine iff_of_false (fun hdot => ?_) (by simp [hroot])
      obtain ⟨c, cs, hcs⟩ := List.exists_cons_of_ne_nil hroot
      rw [hcs, List.cons_append] at hdot
      apply (resolve root).here_not_mem_components
      rw [hcs, ← (List.cons.inj hdot).1]
      exact List.mem_cons_self

/-- A logical path is made of what the resolved file has beyond the resolved directory. -/
theorem logicalPath?_eq_some_iff {path : String} :
    logicalPath? root file = some path ↔ (resolve root).components ≠ [] ∧
      ∃ rest, rest ≠ [] ∧ (resolve file).components = (resolve root).components ++ rest ∧
        path = normalizeLogical ("/".intercalate (rest.map Component.text)) := by
  unfold logicalPath?
  constructor
  · intro hpath
    split at hpath
    case h_1 => cases hpath
    case h_2 => cases hpath
    case h_3 rest hne hrest =>
      have hne' : rest ≠ [] := fun hnil => hne (hnil ▸ rfl)
      obtain ⟨hroot, hfile⟩ := (components_normalize_eq_append_iff hne').mp
        (stripComponents_eq_some_iff.mp hrest)
      exact ⟨hroot, rest, hne', hfile, (Option.some.inj hpath).symm⟩
  · rintro ⟨hroot, rest, hne, hfile, rfl⟩
    have hrest := stripComponents_eq_some_iff.mpr
      ((components_normalize_eq_append_iff hne).mpr ⟨hroot, hfile⟩)
    rw [hrest]
    obtain ⟨c, cs, rfl⟩ := List.exists_cons_of_ne_nil hne
    rfl

/-- Whatever climbs past the directory has a logical path, although it does not lie below. -/
theorem logicalPath?_of_climbsPast (h : (resolve file).ClimbsPast (resolve root)) :
    (∃ path, logicalPath? root file = some path) ∧ ¬(resolve file).IsBelow (resolve root) := by
  obtain ⟨rest, hup, hrest⟩ := h.exists_rest
  constructor
  · refine ⟨_, logicalPath?_eq_some_iff.mpr ⟨?_, rest, List.ne_nil_of_mem hup, hrest, rfl⟩⟩
    obtain ⟨-, habsolute, -, hpos, -⟩ := h
    simp [Resolved.components, habsolute, Nat.ne_of_gt hpos]
  · rintro ⟨names, -, hnames⟩
    rw [List.append_cancel_left (hrest.symm.trans hnames)] at hup
    simp at hup

/-- A file has a logical path only if it lies below the directory; the path is made of the names
that lead to the file. -/
theorem only_files_below_have_paths (h : ¬(resolve file).ClimbsPast (resolve root)) :
    (∀ path, logicalPath? root file = some path → ∃ names : List String, names ≠ [] ∧
      (∀ name ∈ names, IsName name) ∧
      components (normalize file) = components (normalize root) ++ names.map .name ∧
      path = normalizeLogical ("/".intercalate names)) ∧
    (¬(resolve file).IsBelow (resolve root) → logicalPath? root file = none) := by
  have hbelow : ∀ path, logicalPath? root file = some path → ∃ names : List String, names ≠ [] ∧
      (resolve root).components ≠ [] ∧
      (resolve file).components = (resolve root).components ++ names.map .name ∧
      path = normalizeLogical ("/".intercalate names) := by
    intro path hpath
    obtain ⟨hroot, rest, hne, hrest, rfl⟩ := logicalPath?_eq_some_iff.mp hpath
    have hup : .up ∉ rest := fun hup => h (Resolved.climbsPast_of_up_mem hrest hroot hup)
    obtain ⟨names, rfl⟩ := Resolved.exists_names_of_up_not_mem hrest hroot hup
    refine ⟨names, fun hnil => hne (by rw [hnil, List.map_nil]), hroot, hrest, ?_⟩
    rw [List.map_map, show Component.text ∘ Component.name = id from rfl, List.map_id]
  constructor
  · intro path hpath
    obtain ⟨names, hne, hroot, hnames, hlogical⟩ := hbelow path hpath
    refine ⟨names, hne, fun name hname => ?_, ?_, hlogical⟩
    · apply named_resolve file
      apply Resolved.name_mem_components.mp
      rw [hnames]
      exact List.mem_append_right _ (List.mem_map_of_mem hname)
    · apply (components_normalize_eq_append_iff (by simpa using hne)).mpr
      exact ⟨hroot, hnames⟩
  · intro hout
    apply Option.eq_none_iff_forall_ne_some.mpr
    intro path hpath
    obtain ⟨names, hne, -, hnames, -⟩ := hbelow path hpath
    exact hout ⟨names, hne, hnames⟩

/-- A directory that is itself a step up has the files below it, and no others. -/
theorem only_files_below_have_paths_up :
    ¬(resolve "../v/b/../a.hbs").ClimbsPast (resolve "../v") ∧
      ¬(resolve "../w/a.hbs").ClimbsPast (resolve "../v") ∧
      (∃ names : List String, names ≠ [] ∧ (∀ name ∈ names, IsName name) ∧
        components (normalize "../v/b/../a.hbs") =
          components (normalize "../v") ++ names.map .name ∧
        "/a.hbs" = normalizeLogical ("/".intercalate names)) ∧
      logicalPath? "../v" "../w/a.hbs" = none := by
  have hin : ¬(resolve "../v/b/../a.hbs").ClimbsPast (resolve "../v") := by decide +kernel
  have hout : ¬(resolve "../w/a.hbs").ClimbsPast (resolve "../v") := by decide +kernel
  refine ⟨hin, hout, (only_files_below_have_paths hin).1 _ (by decide +kernel), ?_⟩
  refine (only_files_below_have_paths hout).2 ?_
  rintro ⟨names, -, hnames⟩
  have hroot : (resolve "../v").components = [.up, .name "v"] := by decide +kernel
  have hfile : (resolve "../w/a.hbs").components = [.up, .name "w", .name "a.hbs"] := by
    decide +kernel
  rw [hroot, hfile] at hnames
  simp at hnames

/-- A file two steps up has a logical path below the directory one step up. -/
theorem file_further_up_has_path :
    logicalPath? ".." "../../x" = some "/x" ∧ ¬(resolve "../../x").IsBelow (resolve "..") :=
  ⟨by decide +kernel, (logicalPath?_of_climbsPast (by decide +kernel)).2⟩

end CompiledViews.Path
