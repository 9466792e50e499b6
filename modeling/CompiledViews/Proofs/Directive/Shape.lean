import CompiledViews.Proofs.Directive.Reading
import CompiledViews.Proofs.Naming.Segment

/-! Directives, line by line and exactly: which lines are in the shape of one, what each of these
says or what is wrong with it, and that printing a directive writes a line that says it, with any
blanks that may be added. -/

namespace CompiledViews.Directive

open Text

variable {line keyword argument rest : List Char} {r : Except Fault Directive} {d : Directive}

/-- What a line in the shape of a directive says: a type where one is asked for, a dotted name where
one is asked for, and otherwise what is wrong. -/
inductive Means (rest : List Char) : List Char → Except Fault Directive → Prop
  | inherits (h : ∃ c ∈ rest, isBlank c = false) :
    Means rest Keyword.inherits.text.toList (.ok (.inherits (String.ofList (trimList rest))))
  | uses (h : ∀ piece ∈ splitList Naming.isDot (trimList rest), Naming.IsSegment piece) :
    Means rest Keyword.uses.text.toList (.ok (.uses (String.ofList (trimList rest))))
  | missingArgument (k : Keyword) (h : ∀ c ∈ rest, isBlank c = true) :
    Means rest k.text.toList (.error (.missingArgument k))
  | invalidNamespace (h : ∃ c ∈ rest, isBlank c = false)
      (hname : ¬ ∀ piece ∈ splitList Naming.isDot (trimList rest), Naming.IsSegment piece) :
    Means rest Keyword.uses.text.toList
      (.error (.invalidNamespace (String.ofList (trimList rest))))
  | unknown {keyword : List Char} (h : ∀ k : Keyword, keyword ≠ k.text.toList) :
    Means rest keyword (.error (.unknown (String.ofList keyword)))

lemma exists_not_blank_iff : (∃ c ∈ rest, isBlank c = false) ↔ trimList rest ≠ [] := by
  rw [Ne, trimList_eq_nil_iff]
  simp

lemma isQualifiedName_ofList (cs : List Char) : isQualifiedName (String.ofList cs) = true ↔
    ∀ piece ∈ splitList Naming.isDot cs, Naming.IsSegment piece := by
  rw [isQualifiedName, String.toList_ofList, Naming.scan_iff_forall_isSegment]

lemma ofShape_nil (k : Keyword) : ofShape k.text.toList [] = .error (.missingArgument k) := by
  cases k <;> rfl

lemma ofShape_uses_of_not_qualified (hne : argument ≠ [])
    (hname : ¬ isQualifiedName (String.ofList argument) = true) :
    ofShape Keyword.uses.text.toList argument =
      .error (.invalidNamespace (String.ofList argument)) := by
  simp [ofShape, Keyword.text, hne, hname]

lemma ofShape_unknown (h : ∀ k : Keyword, keyword ≠ k.text.toList) (argument : List Char) :
    ofShape keyword argument = .error (.unknown (String.ofList keyword)) := by
  have hinherits : keyword ≠ "inherits".toList := h .inherits
  have huses : keyword ≠ "using".toList := h .uses
  rw [ofShape, if_neg hinherits, if_neg huses]

lemma Means.ofShape_eq (h : Means rest keyword r) : ofShape keyword (trimList rest) = r := by
  cases h with
  | inherits h => exact ofShape_inherits (exists_not_blank_iff.mp h)
  | uses h =>
    have hread := ofShape_uses ((isQualifiedName_ofList _).mpr h)
    rwa [String.toList_ofList] at hread
  | missingArgument k h =>
    rw [trimList_eq_nil_iff.mpr h]
    exact ofShape_nil k
  | invalidNamespace h hname =>
    exact ofShape_uses_of_not_qualified (exists_not_blank_iff.mp h)
      fun hqualified => hname ((isQualifiedName_ofList _).mp hqualified)
  | unknown h => exact ofShape_unknown h _

lemma exists_means (keyword rest : List Char) : ∃ r, Means rest keyword r := by
  by_cases hkeyword : ∃ k : Keyword, keyword = k.text.toList
  · obtain ⟨k, rfl⟩ := hkeyword
    by_cases hblank : ∀ c ∈ rest, isBlank c = true
    · exact ⟨_, .missingArgument k hblank⟩
    · have hsome : ∃ c ∈ rest, isBlank c = false := by simpa using hblank
      cases k with
      | inherits => exact ⟨_, .inherits hsome⟩
      | uses =>
        by_cases hname : ∀ piece ∈ splitList Naming.isDot (trimList rest), Naming.IsSegment piece
        · exact ⟨_, .uses hname⟩
        · exact ⟨_, .invalidNamespace hsome hname⟩
  · exact ⟨_, .unknown fun k hk => hkeyword ⟨k, hk⟩⟩

/-- A keyword and what comes after it are read as what they mean, and mean nothing else. -/
theorem ofShape_eq_iff : ofShape keyword (trimList rest) = r ↔ Means rest keyword r := by
  refine ⟨fun h => ?_, Means.ofShape_eq⟩
  obtain ⟨r', hmeans⟩ := exists_means keyword rest
  rwa [← h, hmeans.ofShape_eq]

/-- The lines that are none of the directives' business are those in no directive's shape. -/
theorem ofLine?_eq_none_iff : ofLine? line = none ↔ ¬ ∃ keyword rest, Shaped line keyword rest := by
  rw [ofLine?, Option.map_eq_none_iff, Option.eq_none_iff_forall_ne_some]
  constructor
  · rintro h ⟨keyword, rest, hshaped⟩
    exact h _ hshaped.shape?_eq
  · rintro h ⟨keyword, argument⟩ hshape
    obtain ⟨rest, hshaped, -⟩ := shape?_eq_some_iff.mp hshape
    exact h ⟨keyword, rest, hshaped⟩

theorem ofLine?_eq_some_iff :
    ofLine? line = some r ↔ ∃ keyword rest, Shaped line keyword rest ∧ Means rest keyword r := by
  rw [ofLine?, Option.map_eq_some_iff]
  constructor
  · rintro ⟨⟨keyword, argument⟩, hshape, hread⟩
    obtain ⟨rest, hshaped, rfl⟩ := shape?_eq_some_iff.mp hshape
    exact ⟨keyword, rest, hshaped, ofShape_eq_iff.mp hread⟩
  · rintro ⟨keyword, rest, hshaped, hmeans⟩
    exact ⟨_, hshaped.shape?_eq, hmeans.ofShape_eq⟩

def word : Directive → Keyword
  | .inherits _ => .inherits
  | .uses _ => .uses

def value : Directive → String
  | .inherits type => type
  | .uses ns => ns

/-- The directive as it may be written, with blanks around it and before its argument. -/
def padded (d : Directive) (before gap after : List Char) : List Char :=
  before ++ '@' :: (d.word.text.toList ++ gap ++ d.value.toList) ++ after

/-- A directive is printed with one space and no other blanks. -/
theorem toList_text (d : Directive) : d.text.toList = d.padded [] [' '] [] := by
  cases d <;> simp [text, padded, word, value, Keyword.text]

lemma Means.eq_of_ok (h : Means rest keyword (.ok d)) :
    keyword = d.word.text.toList ∧ trimList rest = d.value.toList := by
  cases h <;> exact ⟨rfl, String.toList_ofList.symm⟩

/-- Blanks that are added to a directive change nothing, as long as it is one that is read from
some line. -/
theorem ofLine?_padded (h : ofLine? line = some (.ok d)) {before gap after : List Char}
    (hbefore : ∀ c ∈ before, isBlank c = true) (hgap : ∀ c ∈ gap, isBlank c = true)
    (hne : gap ≠ []) (hafter : ∀ c ∈ after, isBlank c = true) :
    ofLine? (d.padded before gap after) = some (.ok d) := by
  obtain ⟨keyword, rest, -, hmeans⟩ := ofLine?_eq_some_iff.mp h
  obtain ⟨rfl, hvalue⟩ := hmeans.eq_of_ok
  obtain ⟨blank, gap, rfl⟩ := List.exists_cons_of_ne_nil hne
  rw [List.forall_mem_cons] at hgap
  have hline : d.padded before (blank :: gap) after =
      before ++ '@' :: (d.word.text.toList ++ blank :: (gap ++ d.value.toList ++ after)) := by
    simp [padded]
  have htrim : trimList (gap ++ d.value.toList ++ after) = trimList rest := by
    rw [trimList_append_blank hafter, trimList_blank_append hgap.2, ← hvalue,
      (trimmed_trimList rest).trimList_eq]
  rw [ofLine?, hline, shape?_spelled hbefore d.word.letters.1 d.word.letters.2 hgap.1, htrim]
  exact congrArg some hmeans.ofShape_eq

/-- Directive lines are read exactly, and printing goes the other way. A line says nothing just when
it is in no directive's shape; a line in that shape is read as what it means, and as nothing else;
and a directive that is read from some line is read again from what is printed for it, and from that
with blanks added before it, after it and before the argument. -/
theorem lines_read_exactly :
    (∀ line, ofLine? line = none ↔ ¬ ∃ keyword rest, Shaped line keyword rest) ∧
    (∀ line r, ofLine? line = some r ↔
      ∃ keyword rest, Shaped line keyword rest ∧ Means rest keyword r) ∧
    ∀ line d, ofLine? line = some (.ok d) →
      ofLine? d.text.toList = some (.ok d) ∧
      ∀ before gap after, (∀ c ∈ before, isBlank c = true) → (∀ c ∈ gap, isBlank c = true) →
        gap ≠ [] → (∀ c ∈ after, isBlank c = true) →
          ofLine? (d.padded before gap after) = some (.ok d) := by
  refine ⟨fun _ => ofLine?_eq_none_iff, fun _ _ => ofLine?_eq_some_iff, fun line d h => ⟨?_, ?_⟩⟩
  · rw [toList_text]
    exact ofLine?_padded h (by simp) (by simp; decide) (by simp) (by simp)
  · intro before gap after hbefore hgap hne hafter
    exact ofLine?_padded h hbefore hgap hne hafter

theorem lines_read_exactly_tabs :
    ofLine? "@inherits List < A >\r\n".toList = some (.ok (.inherits "List < A >")) ∧
      ofLine? "\u3000@inherits\t\u00a0List < A >\n".toList =
        some (.ok (.inherits "List < A >")) := by
  have hread : ofLine? "@inherits List < A >\r\n".toList = some (.ok (.inherits "List < A >")) := by
    decide +kernel
  have hblank : isBlank '\u3000' = true ∧ isBlank '\t' = true ∧ isBlank '\u00a0' = true ∧
      isBlank '\n' = true := by decide
  have hpadded := (lines_read_exactly.2.2 _ _ hread).2 ['\u3000'] ['\t', '\u00a0'] ['\n']
    (by simp [hblank]) (by simp [hblank]) (by simp) (by simp [hblank])
  exact ⟨hread, hpadded⟩

end CompiledViews.Directive
