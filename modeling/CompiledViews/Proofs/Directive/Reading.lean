import CompiledViews.Directive.Basic
import CompiledViews.Proofs.Naming

/-! Reading directives back from lines that spell them. Blanks before and after a directive do not
count, nor does it matter how many stand before the argument. -/

namespace CompiledViews.Directive

open Text

variable {line before keyword argument rest : List Char} {blank : Char}

lemma not_blank_of_isAlpha {c : Char} (h : c.isAlpha = true) : isBlank c = false :=
  Naming.not_blank_of_isPart (by simp [Naming.isPart, Char.isAlphanum, h])

lemma isAlpha_eq_false_of_blank {c : Char} (h : isBlank c = true) : c.isAlpha = false := by
  by_contra hc
  rw [not_blank_of_isAlpha (Bool.not_eq_false _ ▸ hc)] at h
  cases h

/-- Without the blanks around it a line is a mark, a word of letters, and then nothing, or a blank
and more. -/
structure Shaped (line keyword rest : List Char) : Prop where
  trim_eq : trimList line = '@' :: (keyword ++ rest)
  ne_nil : keyword ≠ []
  letters : ∀ c ∈ keyword, c.isAlpha = true
  blank : ∀ c ∈ rest.head?, isBlank c = true

theorem Shaped.shape?_eq (h : Shaped line keyword rest) :
    shape? line = some (keyword, trimList rest) := by
  have htake : (keyword ++ rest).takeWhile Char.isAlpha = keyword := by
    rw [List.takeWhile_append_of_pos h.letters]
    cases rest with
    | nil => simp
    | cons c cs => simp [isAlpha_eq_false_of_blank (h.blank c rfl)]
  have hdrop : (keyword ++ rest).dropWhile Char.isAlpha = rest := by
    rw [List.dropWhile_append_of_pos h.letters]
    cases rest with
    | nil => simp
    | cons c cs => simp [isAlpha_eq_false_of_blank (h.blank c rfl)]
  have hblanks : (rest.head?.any fun c => !isBlank c) = false := by
    cases rest with
    | nil => rfl
    | cons c cs => simp [h.blank c rfl]
  rw [shape?, h.trim_eq]
  simp [htake, hdrop, hblanks, h.ne_nil]

theorem shape?_eq_some_iff : shape? line = some (keyword, argument) ↔
    ∃ rest, Shaped line keyword rest ∧ argument = trimList rest := by
  constructor
  · intro h
    rw [shape?] at h
    split at h
    case h_1 cs htrim =>
      simp only [Option.ite_none_left_eq_some, Option.some.injEq, Prod.mk.injEq] at h
      obtain ⟨hne, hblank, rfl, rfl⟩ := h
      refine ⟨cs.dropWhile Char.isAlpha, ⟨?_, by simpa using hne, fun c hc => ?_, fun c hc => ?_⟩, rfl⟩
      · rw [List.takeWhile_append_dropWhile, htrim]
      · exact List.mem_takeWhile_imp hc
      · rw [Option.mem_def.mp hc] at hblank
        simpa using hblank
    case h_2 => cases h
  · rintro ⟨rest, hshaped, rfl⟩
    exact hshaped.shape?_eq

/-- A mark, a word of letters, a blank and an argument, with blanks around, are in the shape of a
directive. -/
theorem shape?_spelled (hbefore : ∀ c ∈ before, isBlank c = true) (hkeyword : keyword ≠ [])
    (hletters : ∀ c ∈ keyword, c.isAlpha = true) (hblank : isBlank blank = true) :
    shape? (before ++ '@' :: (keyword ++ blank :: argument)) =
      some (keyword, trimList argument) := by
  have hfront : ∀ c ∈ ('@' :: keyword).getLast?, isBlank c = false := by
    intro c hc
    rcases List.mem_cons.mp (List.mem_of_mem_getLast? hc) with rfl | hc
    · decide
    · exact not_blank_of_isAlpha (hletters c hc)
  have htrim : trimList (before ++ '@' :: (keyword ++ blank :: argument)) =
      '@' :: (keyword ++ trimEndList (blank :: argument)) := by
    rw [trimList_blank_append hbefore, trimList, trimStartList,
      List.dropWhile_cons_of_neg (by decide), ← List.cons_append, trimEndList_append hfront,
      List.cons_append]
  -- what follows the word starts with a blank, if anything is left of it
  have hrest : ∀ c ∈ (trimEndList (blank :: argument)).head?, isBlank c = true := by
    intro c hc
    obtain ⟨tail, htail⟩ := prefix_trimEndList (blank :: argument)
    have hhead := congrArg List.head? htail
    rw [List.head?_append, Option.mem_def.mp hc] at hhead
    obtain rfl : c = blank := by simpa using hhead
    exact hblank
  have hshaped : Shaped (before ++ '@' :: (keyword ++ blank :: argument)) keyword
      (trimEndList (blank :: argument)) := ⟨htrim, hkeyword, hletters, hrest⟩
  have hargument : trimList (trimEndList (blank :: argument)) = trimList argument := by
    have hone : ∀ c ∈ [blank], isBlank c = true := by simpa using hblank
    rw [trimList_trimEndList]
    exact trimList_blank_append hone argument
  rw [hshaped.shape?_eq, hargument]

lemma Keyword.letters (k : Keyword) :
    k.text.toList ≠ [] ∧ ∀ c ∈ k.text.toList, c.isAlpha = true := by
  cases k <;> simp [Keyword.text]

/-- The shape of a line that spells a directive with the given argument. -/
theorem shape?_line (k : Keyword) (argument : List Char) :
    shape? ('@' :: (k.text.toList ++ ' ' :: argument) ++ ['\n']) =
      some (k.text.toList, trimList argument) := by
  have hshape : shape? ([] ++ '@' :: (k.text.toList ++ ' ' :: (argument ++ ['\n']))) =
      some (k.text.toList, trimList (argument ++ ['\n'])) :=
    shape?_spelled (by simp) k.letters.1 k.letters.2 (by decide)
  rw [trimList_append_blank (by simp; decide)] at hshape
  simpa using hshape

lemma ofShape_inherits {argument : List Char} (h : argument ≠ []) :
    ofShape Keyword.inherits.text.toList argument = .ok (.inherits (String.ofList argument)) := by
  simp [ofShape, Keyword.text, h]

lemma ofShape_uses {ns : String} (h : isQualifiedName ns = true) :
    ofShape Keyword.uses.text.toList ns.toList = .ok (.uses ns) := by
  have hne : ns ≠ "" := fun he => (inline_of_isQualifiedName h).ne_nil (by simp [he])
  simp [ofShape, Keyword.text, h, hne]

/-- The line of a directive that names a type is read as that directive, the type without the
blanks at its ends. -/
theorem ofLine?_inherits {type : String} (h : ∃ c ∈ type.toList, isBlank c = false) :
    ofLine? ((inherits type).text.toList ++ ['\n']) = some (.ok (.inherits (trim type))) := by
  have htext : (inherits type).text.toList =
      '@' :: (Keyword.inherits.text.toList ++ ' ' :: type.toList) := by simp [text, Keyword.text]
  have hne : trimList type.toList ≠ [] := by
    rw [Ne, trimList_eq_nil_iff]
    obtain ⟨c, hc, hblank⟩ := h
    exact fun hall => by simp [hall c hc] at hblank
  rw [ofLine?, htext, shape?_line, Option.map_some]
  exact congrArg some (ofShape_inherits hne)

/-- The line of a directive that uses a namespace is read as that directive. -/
theorem ofLine?_uses {ns : String} (h : isQualifiedName ns = true) :
    ofLine? ((uses ns).text.toList ++ ['\n']) = some (.ok (.uses ns)) := by
  have htext : (uses ns).text.toList =
      '@' :: (Keyword.uses.text.toList ++ ' ' :: ns.toList) := by simp [text, Keyword.text]
  rw [ofLine?, htext, shape?_line, (inline_of_isQualifiedName h).trimmed.trimList_eq,
    Option.map_some]
  exact congrArg some (ofShape_uses h)

/-- What is read from a keyword and an argument: a type, which is the argument, or a dotted name. -/
theorem ofShape_eq_ok {d : Directive} (h : ofShape keyword argument = .ok d) :
    (argument ≠ [] ∧ d = .inherits (String.ofList argument)) ∨
      ∃ ns, isQualifiedName ns = true ∧ d = .uses ns := by
  rw [ofShape] at h
  split at h
  · split at h
    case isTrue => cases h
    case isFalse hne => exact .inl ⟨by simpa using hne, (Except.ok.inj h).symm⟩
  · split at h
    · split at h
      case isTrue => cases h
      case isFalse =>
        split at h
        case isTrue hname => exact .inr ⟨_, hname, (Except.ok.inj h).symm⟩
        case isFalse => cases h
    · cases h

/-- The type that a directive on a line of a text names can stand on a line. -/
theorem inline_of_ofLine? {cs line : List Char} {type : String} (hline : line ∈ linesList cs)
    (h : ofLine? line = some (.ok (.inherits type))) : Inline type := by
  obtain ⟨⟨keyword, argument⟩, hshape, hread⟩ := Option.map_eq_some_iff.mp h
  obtain ⟨rest, hshaped, rfl⟩ := shape?_eq_some_iff.mp hshape
  have hnewline : '\n' ∉ trimList rest := by
    have hrest := newline_not_mem_trimList hline
    rw [hshaped.trim_eq, List.mem_cons, not_or] at hrest
    exact fun hmem => hrest.2 (List.mem_append_right _ ((infix_trimList rest).subset hmem))
  rcases ofShape_eq_ok hread with ⟨hne, htype⟩ | ⟨ns, -, hother⟩
  · cases htype
    exact ⟨by simpa using hne, by simpa using hnewline, by simpa using trimmed_trimList _⟩
  · cases hother

/-- The namespace that a directive uses is a dotted name. -/
theorem isQualifiedName_of_ofLine? {line : List Char} {ns : String}
    (h : ofLine? line = some (.ok (.uses ns))) : isQualifiedName ns = true := by
  obtain ⟨⟨keyword, argument⟩, -, hread⟩ := Option.map_eq_some_iff.mp h
  rcases ofShape_eq_ok hread with ⟨-, htype⟩ | ⟨_, hname, hns⟩
  · cases htype
  · cases hns
    exact hname

end CompiledViews.Directive
