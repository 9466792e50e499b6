import CompiledViews.Files.Discovery
import CompiledViews.Proofs.Path.Lexical

/-! Logical paths of files. A file that lies below a directory by its names has a logical path made
of these names, unless the directory is, by its spelling, the one where one is. -/

namespace CompiledViews.Path

open Text

/-- The pieces of a logical path between its slashes. -/
structure IsSegment (piece : List Char) : Prop where
  ne_nil : piece ≠ []
  ne_here : piece ≠ ['.']
  ne_up : piece ≠ ['.', '.']
  no_separator : ∀ c ∈ piece, isSeparator c = false

lemma IsName.isSegment {name : String} (h : IsName name) (hbackslash : '\\' ∉ name.toList) :
    IsSegment name.toList where
  ne_nil := fun he => h.ne_empty (String.toList_inj.mp he)
  ne_here := fun he => h.ne_here (String.toList_inj.mp he)
  ne_up := fun he => h.ne_up (String.toList_inj.mp he)
  no_separator := fun c hc => by
    have hslash : c ≠ '/' := fun he => h.slash_not_mem (he ▸ hc)
    have hback : c ≠ '\\' := fun he => hbackslash (he ▸ hc)
    simp [isSeparator, hslash, hback]

lemma stepLogical_of_isSegment {piece : List Char} (h : IsSegment piece)
    (names : List (List Char)) : stepLogical names piece = piece :: names := by
  rw [stepLogical, if_neg (not_or.mpr ⟨h.ne_nil, h.ne_here⟩), if_neg h.ne_up]

lemma foldl_stepLogical {pieces : List (List Char)} (h : ∀ piece ∈ pieces, IsSegment piece)
    (names : List (List Char)) : pieces.foldl stepLogical names = pieces.reverse ++ names := by
  induction pieces generalizing names with
  | nil => rfl
  | cons piece pieces ih =>
    rw [List.forall_mem_cons] at h
    rw [List.foldl_cons, stepLogical_of_isSegment h.1, ih h.2]
    simp

/-- The names in a spelling are segments. -/
theorem isSegment_of_mem_logicalNames {cs piece : List Char} (h : piece ∈ logicalNames cs) :
    IsSegment piece := by
  have hfold : ∀ (pieces names : List (List Char)),
      (∀ piece ∈ pieces, ∀ c ∈ piece, isSeparator c = false) →
      (∀ piece ∈ names, IsSegment piece) →
      ∀ piece ∈ pieces.foldl stepLogical names, IsSegment piece := by
    intro pieces
    induction pieces with
    | nil => exact fun _ _ hnames => hnames
    | cons piece pieces ih =>
      intro names hpieces hnames
      rw [List.forall_mem_cons] at hpieces
      refine ih _ hpieces.2 ?_
      rw [stepLogical]
      split
      case isTrue => exact hnames
      case isFalse hidle =>
        rw [not_or] at hidle
        split
        case isTrue => exact fun p hp => hnames p (List.mem_of_mem_tail hp)
        case isFalse hup =>
          exact List.forall_mem_cons.mpr ⟨⟨hidle.1, hidle.2, hup, hpieces.1⟩, hnames⟩
  exact hfold _ [] (fun _ hp => not_mem_of_mem_splitList hp) (by simp) piece (List.mem_reverse.mp h)

theorem logicalNames_logicalText {names : List (List Char)} (h : ∀ piece ∈ names, IsSegment piece) :
    logicalNames (logicalText names) = names := by
  rw [logicalText]
  split
  case isTrue hnil => rw [List.isEmpty_iff.mp hnil]; rfl
  case isFalse =>
    rw [logicalNames, splitList_flatMap (by decide) fun piece hp => (h piece hp).no_separator,
      List.foldl_cons]
    show (names.foldl stepLogical []).reverse = names
    rw [foldl_stepLogical h, List.append_nil, List.reverse_reverse]

/-- The canonical spelling is the canonical spelling of itself. -/
@[simp] theorem normalizeLogical_normalizeLogical (name : String) :
    normalizeLogical (normalizeLogical name) = normalizeLogical name := by
  rw [normalizeLogical, normalizeLogical, String.toList_ofList,
    logicalNames_logicalText fun _ hp => isSegment_of_mem_logicalNames hp]

lemma intercalate_slash (name : List Char) (names : List (List Char)) :
    "/".toList.intercalate (name :: names) = name ++ names.flatMap ('/' :: ·) := by
  induction names generalizing name with
  | nil => simp [List.intercalate]
  | cons next names ih =>
    rw [List.intercalate_cons_cons, ih]
    simp

/-- Names joined by slashes are found again. -/
theorem logicalNames_intercalate {names : List String} (hne : names ≠ [])
    (h : ∀ n ∈ names, IsSegment n.toList) :
    logicalNames ("/".intercalate names).toList = names.map String.toList := by
  have hsegments : ∀ piece ∈ names.map String.toList, IsSegment piece := by
    rw [List.forall_mem_map]
    exact h
  have hsplit : splitList isSeparator ("/".intercalate names).toList = names.map String.toList := by
    obtain ⟨name, others, rfl⟩ := List.exists_cons_of_ne_nil hne
    rw [List.map_cons, List.forall_mem_cons] at hsegments
    rw [String.toList_intercalate, List.map_cons, intercalate_slash,
      splitList_append_of_forall hsegments.1.no_separator,
      splitList_flatMap (by decide) fun piece hp => (hsegments.2 piece hp).no_separator,
      List.modifyHead_cons, List.append_nil]
  rw [logicalNames, hsplit, foldl_stepLogical hsegments, List.append_nil, List.reverse_reverse]

/-- Names joined by slashes are spelled canonically with a slash before each. -/
theorem normalizeLogical_intercalate {names : List String} (hne : names ≠ [])
    (h : ∀ n ∈ names, IsSegment n.toList) :
    normalizeLogical ("/".intercalate names) = String.join (names.map ("/" ++ ·)) := by
  rw [normalizeLogical, logicalNames_intercalate hne h, logicalText,
    if_neg (by simpa using hne), ← String.toList_inj]
  simp [String.toList_join, List.flatMap_map]

/-- Spellings of one path hold the same names. -/
theorem normalizeLogical_inj_iff {a b : String} :
    normalizeLogical a = normalizeLogical b ↔ logicalNames a.toList = logicalNames b.toList := by
  constructor
  · intro h
    have htext := String.ofList_injective h
    rw [← logicalNames_logicalText fun _ hp => isSegment_of_mem_logicalNames hp, htext,
      logicalNames_logicalText fun _ hp => isSegment_of_mem_logicalNames hp]
  · exact fun h => by rw [normalizeLogical, h, normalizeLogical]

/-- A logical path is spelled canonically. -/
theorem normalizeLogical_of_logicalPath? {root file path : String}
    (h : logicalPath? root file = some path) : normalizeLogical path = path := by
  unfold logicalPath? at h
  split at h
  case h_1 => cases h
  case h_2 => cases h
  case h_3 rest hrest =>
    obtain rfl := Option.some.inj h
    exact normalizeLogical_normalizeLogical _

theorem components_pathBelow (root : String) {names : List String} (h : ∀ n ∈ names, IsName n) :
    components (pathBelow root names) = components root ++ names.map .name := by
  have hnames : ∀ c ∈ names.map Component.name, c.LeadsOn := List.forall_mem_map.mpr h
  have hjoin := components_foldl_join root hnames
  rwa [List.foldl_map] at hjoin

theorem resolve_pathBelow (root : String) {names : List String} (h : ∀ n ∈ names, IsName n) :
    (resolve (pathBelow root names)).components =
      (resolve root).components ++ names.map .name := by
  rw [resolve, components_pathBelow root h, Resolved.ofComponents, List.foldl_append,
    Resolved.foldl_step_names, Resolved.components_append_names]
  rfl

/-- A file below a directory has a logical path, unless the directory is where one is. -/
theorem logicalPath?_pathBelow {root : String} {names : List String} (hne : names ≠ [])
    (h : ∀ n ∈ names, IsName n) : logicalPath? root (pathBelow root names) =
      if normalize root = "." then none else some (normalizeLogical ("/".intercalate names)) := by
  obtain ⟨name, others, rfl⟩ := List.exists_cons_of_ne_nil hne
  unfold logicalPath?
  rw [components_normalize (pathBelow root _), resolve_pathBelow root h, components_normalize root]
  by_cases hdot : normalize root = "."
  · rw [if_pos hdot, (normalize_eq_dot_iff root).mp hdot]
    rfl
  · have hroot : (resolve root).components ≠ [] := fun hnil =>
      hdot ((normalize_eq_dot_iff root).mpr hnil)
    rw [if_neg hdot, if_neg (by simpa using hroot), if_neg (by simp),
      stripComponents_eq_some_iff.mpr rfl]
    show some (normalizeLogical ("/".intercalate _)) = _
    rw [map_text_name]

/-- A file lies below a directory under names without a backslash. -/
def PlainlyBelow (root file : String) : Prop :=
  ∃ names, file = pathBelow root names ∧ names ≠ [] ∧ ∀ n ∈ names, IsName n ∧ '\\' ∉ n.toList

/-- Names without a backslash are told from the logical path of the file. -/
theorem PlainlyBelow.logicalPath?_inj {root file file' path : String} (h : PlainlyBelow root file)
    (h' : PlainlyBelow root file') (hpath : logicalPath? root file = some path)
    (hpath' : logicalPath? root file' = some path) : file = file' := by
  obtain ⟨names, rfl, hne, hnames⟩ := h
  obtain ⟨names', rfl, hne', hnames'⟩ := h'
  rw [logicalPath?_pathBelow hne fun n hn => (hnames n hn).1] at hpath
  rw [logicalPath?_pathBelow hne' fun n hn => (hnames' n hn).1] at hpath'
  split at hpath
  case isTrue => cases hpath
  case isFalse hroot =>
    rw [if_neg hroot] at hpath'
    have hsame := normalizeLogical_inj_iff.mp (Option.some.inj (hpath.trans hpath'.symm))
    have hsegments : ∀ n ∈ names, IsSegment n.toList :=
      fun n hn => (hnames n hn).1.isSegment (hnames n hn).2
    have hsegments' : ∀ n ∈ names', IsSegment n.toList :=
      fun n hn => (hnames' n hn).1.isSegment (hnames' n hn).2
    rw [logicalNames_intercalate hne hsegments, logicalNames_intercalate hne' hsegments'] at hsame
    rw [List.map_injective_iff.mpr (fun _ _ => String.toList_inj.mp) hsame]

end CompiledViews.Path
