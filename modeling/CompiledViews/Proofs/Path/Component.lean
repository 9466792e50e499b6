import CompiledViews.Path.Component
import CompiledViews.Proofs.Text.Split

/-! The components of joined paths. Names and steps up that are put below a path come after its
components. -/

namespace CompiledViews.Path

open Text

/-- The names that files have: no name is empty, holds a slash, or says where one is or is to go. -/
structure IsName (s : String) : Prop where
  ne_empty : s ≠ ""
  ne_here : s ≠ "."
  ne_up : s ≠ ".."
  slash_not_mem : '/' ∉ s.toList

instance : DecidablePred IsName := fun s =>
  decidable_of_iff (s ≠ "" ∧ s ≠ "." ∧ s ≠ ".." ∧ '/' ∉ s.toList)
    ⟨fun h => ⟨h.1, h.2.1, h.2.2.1, h.2.2.2⟩, fun h => ⟨h.1, h.2, h.3, h.4⟩⟩

lemma map_text_name (names : List String) :
    (names.map Component.name).map Component.text = names := by
  rw [List.map_map, show Component.text ∘ Component.name = id from rfl, List.map_id]

/-- The components that lead on from where a path ends. -/
def Component.LeadsOn : Component → Prop
  | .up => True
  | .name s => IsName s
  | .root | .here => False

namespace Component.LeadsOn

variable {c : Component}

lemma ofPiece_text (h : c.LeadsOn) : ofPiece c.text.toList = some c := by
  cases c with
  | root => exact h.elim
  | here => exact h.elim
  | up => rfl
  | name s =>
    have hne : s.toList ≠ [] := fun he => h.ne_empty (String.toList_inj.mp he)
    have hhere : s.toList ≠ ['.'] := fun he => h.ne_here (String.toList_inj.mp he)
    have hup : s.toList ≠ ['.', '.'] := fun he => h.ne_up (String.toList_inj.mp he)
    simp [text, ofPiece, hne, hhere, hup]

lemma slash_not_mem_text (h : c.LeadsOn) : '/' ∉ c.text.toList := by
  cases c with
  | root => exact h.elim
  | here => exact h.elim
  | up => decide
  | name s => exact h.slash_not_mem

lemma splitList_text (h : c.LeadsOn) : splitList isSlash c.text.toList = [c.text.toList] :=
  splitList_eq_singleton fun _ hx => decide_eq_false fun he => h.slash_not_mem_text (he ▸ hx)

lemma isAbsolute_text (h : c.LeadsOn) : isAbsolute c.text = false :=
  decide_eq_false fun hhead => h.slash_not_mem_text (List.mem_of_mem_head? hhead)

end Component.LeadsOn

lemma componentsList_slash (xs cs : List Char) :
    componentsList (xs ++ '/' :: cs) =
      (if (xs ++ ['/']).head? = some '/' then [.root]
        else if (splitList isSlash xs).head? = some ['.'] then [.here] else []) ++
      (splitList isSlash xs).filterMap ofPiece ++ (splitList isSlash cs).filterMap ofPiece := by
  have hhead : (xs ++ '/' :: cs).head? = (xs ++ ['/']).head? := by cases xs <;> rfl
  simp only [componentsList, hhead, splitList_append_sep (by decide : isSlash '/' = true),
    List.head?_append_of_ne_nil _ (splitList_ne_nil isSlash xs), List.filterMap_append,
    List.append_assoc]

/-- What follows a slash comes after the components before it. -/
theorem componentsList_append_slash (xs cs : List Char) :
    componentsList (xs ++ '/' :: cs) =
      componentsList (xs ++ ['/']) ++ (splitList isSlash cs).filterMap ofPiece := by
  have hidle : (splitList isSlash []).filterMap ofPiece = [] := rfl
  rw [componentsList_slash, componentsList_slash xs [], hidle, List.append_nil]

/-- A slash at the end of a path says nothing. -/
theorem componentsList_concat_slash {xs : List Char} (h : xs ≠ []) :
    componentsList (xs ++ ['/']) = componentsList xs := by
  have hidle : (splitList isSlash []).filterMap ofPiece = [] := rfl
  rw [componentsList_slash, hidle, List.append_nil, List.head?_append_of_ne_nil _ h]
  rfl

theorem components_text {c : Component} (h : c.LeadsOn) : components c.text = [c] := by
  have hstart : c.text.toList ≠ ['.'] := fun hdot => by
    have hpiece := h.ofPiece_text
    rw [hdot] at hpiece
    cases hpiece
  have habsolute := of_decide_eq_false h.isAbsolute_text
  simp [components, componentsList, h.splitList_text, h.ofPiece_text, habsolute, hstart]

/-- What is put below a path comes after its components, piece by piece. -/
theorem components_join_relative {base rest : String} (hbase : base ≠ "")
    (hrest : isAbsolute rest = false) : components (join base rest) =
      components base ++ (splitList isSlash rest.toList).filterMap ofPiece := by
  have hne : base.toList ≠ [] := fun he => hbase (String.toList_inj.mp he)
  rw [join, hrest, Bool.false_or, if_neg (by simpa using hbase)]
  split
  case isTrue hslash =>
    obtain ⟨front, hfront⟩ := List.getLast?_eq_some_iff.mp hslash
    have htext : (base ++ rest).toList = front ++ '/' :: rest.toList := by simp [hfront]
    rw [components, components, htext, componentsList_append_slash, hfront]
  case isFalse =>
    have htext : (base ++ "/" ++ rest).toList = base.toList ++ '/' :: rest.toList := by simp
    rw [components, components, htext, componentsList_append_slash, componentsList_concat_slash hne]

theorem components_join (base : String) {c : Component} (h : c.LeadsOn) :
    components (join base c.text) = components base ++ [c] := by
  by_cases hbase : base = ""
  · obtain rfl := hbase
    rw [join, if_pos (by simp)]
    exact components_text h
  · rw [components_join_relative hbase h.isAbsolute_text, h.splitList_text,
      List.filterMap_cons_some h.ofPiece_text, List.filterMap_nil]

theorem components_foldl_join (base : String) {cs : List Component} (h : ∀ c ∈ cs, c.LeadsOn) :
    components (cs.foldl (fun path c => join path c.text) base) = components base ++ cs := by
  induction cs generalizing base with
  | nil => rw [List.append_nil]; rfl
  | cons c cs ih =>
    rw [List.forall_mem_cons] at h
    rw [List.foldl_cons, ih _ h.2, components_join base h.1, List.append_assoc]
    rfl

/-- A path made of components that lead on has these components, and so has one that starts at the
root. -/
theorem components_ofComponents {cs : List Component} (h : ∀ c ∈ cs, c.LeadsOn) :
    components (ofComponents cs) = cs ∧ components (ofComponents (.root :: cs)) = .root :: cs :=
  ⟨components_foldl_join "" h, components_foldl_join "/" h⟩

/-- Only the empty path has no components. -/
theorem components_ne_nil {path : String} (h : path ≠ "") : components path ≠ [] := by
  rw [components]
  cases hpath : path.toList with
  | nil => exact absurd (String.toList_inj.mp hpath) h
  | cons c cs =>
    by_cases hslash : c = '/'
    · simp [componentsList, hslash]
    · obtain ⟨piece, pieces, hpieces⟩ := List.exists_cons_of_ne_nil (splitList_ne_nil isSlash cs)
      have hfirst : splitList isSlash (c :: cs) = (c :: piece) :: pieces := by
        rw [splitList_cons_of_neg (decide_eq_false hslash), hpieces, List.modifyHead_cons]
      by_cases hhere : c :: piece = ['.']
      · simp [componentsList, hslash, hfirst, hhere]
      · -- A first piece with something in it other than a dot is a component.
        have hsome : ∃ first, ofPiece (c :: piece) = some first := by
          rw [ofPiece, if_neg (by simp [hhere])]
          split <;> exact ⟨_, rfl⟩
        obtain ⟨first, hpiece⟩ := hsome
        simp [componentsList, hslash, hfirst, hpiece]

lemma ofPiece_ne_root (piece : List Char) : ofPiece piece ≠ some .root := by
  rw [ofPiece]
  split
  · simp
  · split <;> simp

lemma root_not_mem_filterMap (pieces : List (List Char)) : .root ∉ pieces.filterMap ofPiece := by
  intro hroot
  obtain ⟨piece, -, hpiece⟩ := List.mem_filterMap.mp hroot
  exact ofPiece_ne_root piece hpiece

/-- A path starts at the root, if it does, and does not go back there. -/
theorem root_not_mem_of_components_eq {path : String} {front rest : List Component}
    (h : components path = front ++ rest) (hne : front ≠ []) : .root ∉ rest := by
  intro hmem
  obtain ⟨c, cs, rfl⟩ := List.exists_cons_of_ne_nil hne
  have htail : .root ∈ (components path).tail := by
    rw [h, List.cons_append, List.tail_cons]
    exact List.mem_append_right _ hmem
  rw [components, componentsList] at htail
  split at htail
  · exact root_not_mem_filterMap _ htail
  · split at htail
    · exact root_not_mem_filterMap _ htail
    · exact root_not_mem_filterMap _ (List.mem_of_mem_tail htail)

/-- The names among the components of a path are names. -/
theorem isName_of_mem_components {path s : String} (h : .name s ∈ components path) : IsName s := by
  rw [components, componentsList, List.mem_append] at h
  rcases h with hstart | hpieces
  · split at hstart
    · simp at hstart
    · split at hstart <;> simp at hstart
  · obtain ⟨piece, hpiece, hname⟩ := List.mem_filterMap.mp hpieces
    have hslash := not_mem_of_mem_splitList hpiece
    rw [ofPiece] at hname
    split at hname
    · cases hname
    case isFalse hidle =>
      split at hname
      · cases hname
      case isFalse hup =>
        cases hname
        rw [not_or] at hidle
        refine ⟨?_, ?_, ?_, fun hmem => ?_⟩
        · simpa [← String.toList_inj] using hidle.1
        · simpa [← String.toList_inj] using hidle.2
        · simpa [← String.toList_inj] using hup
        · exact absurd (hslash '/' (by simpa using hmem)) (by decide)

end CompiledViews.Path
