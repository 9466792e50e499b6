import CompiledViews.Proofs.Code.Translation

/-! What is wrong with the directives of a template. The lines at its top are looked at one by one,
and each is at fault or not, whatever is wrong with the others: only the types that are named before
it count. -/

namespace CompiledViews

/-- The code under which a fault in a directive is reported. -/
def Directive.Fault.code : Directive.Fault → String
  | .unknown _ => "STC0010"
  | .missingArgument _ => "STC0011"
  | .invalidNamespace _ => "STC0011"

namespace Markup

open Text Directive

variable {text : List Char} {lines before : List (List Char)} {line : List Char} {number : ℕ}

/-- The longest run of first lines of a text each of which is blank or in the shape of a
directive. -/
def leading (text : List Char) : List (List Char) := (linesList text).takeWhile isLeading

/-- Whether a line is a directive that names a type to inherit from. -/
def namesType (line : List Char) : Bool :=
  match ofLine? line with
  | some (.ok (.inherits _)) => true
  | _ => false

/-- What is wrong with a line of the given number, below the lines before it. -/
def lineFault? (before : List (List Char)) (line : List Char) (number : ℕ) : Option Diagnostic :=
  match ofLine? line with
  | some (.error f) => some ⟨.error, f.code, f.message, some ⟨number, some 1⟩⟩
  | some (.ok (.inherits _)) =>
    if before.any namesType then
      some ⟨.error, "STC0012", "'@inherits' may only appear once", some ⟨number, some 1⟩⟩
    else none
  | _ => none

/-- What is wrong with some lines, line by line. -/
def lineFaults (lines : List (List Char)) : List Diagnostic :=
  lines.zipIdx.filterMap fun (line, i) => lineFault? (lines.take i) line (i + 1)

/-- With a line, its fault is found, and it is remembered if it names a type. -/
lemma faults_cons (before lines : List (List Char)) (line : List Char) :
    faults number (before.any namesType) (line :: lines) =
      (lineFault? before line number).toList ++
        faults (number + 1) ((before ++ [line]).any namesType) lines := by
  rw [faults, lineFault?, List.any_append, List.any_cons, List.any_nil, Bool.or_false, namesType]
  cases hline : ofLine? line with
  | none => simp
  | some read =>
    cases read with
    | error f => cases f <;> simp [faultDiagnostic, Fault.code] <;> rfl
    | ok d =>
      cases d with
      | uses ns => simp
      | inherits type => cases hany : before.any namesType <;> simp; rfl

/-- Going through the lines with what is remembered of those before finds the faults of each. -/
lemma faults_eq (before lines : List (List Char)) :
    faults (before.length + 1) (before.any namesType) lines =
      (lines.zipIdx before.length).filterMap fun (line, i) =>
        lineFault? ((before ++ lines).take i) line (i + 1) := by
  induction lines generalizing before with
  | nil => rfl
  | cons line lines ih =>
    have hrest := ih (before ++ [line])
    rw [List.length_append, List.length_singleton, List.append_assoc, List.singleton_append]
      at hrest
    have hbefore : (before ++ line :: lines).take before.length = before := List.take_left
    rw [faults_cons, hrest, List.zipIdx_cons, List.filterMap_cons]
    simp only [hbefore]
    cases lineFault? before line (before.length + 1) <;> rfl

lemma faults_eq_lineFaults (lines : List (List Char)) :
    faults 1 false lines = lineFaults lines := by
  simpa [lineFaults] using faults_eq [] lines

lemma ofLine?_eq_none_of_blank (h : isBlankLine line) : ofLine? line = none := by
  by_contra hsome
  have hblank := isBlankLine_of_isSome (Option.isSome_iff_ne_none.mpr hsome)
  rw [h] at hblank
  cases hblank

/-- Blank lines below a block add no faults. -/
lemma faults_append_blank {blanks : List (List Char)} (h : ∀ line ∈ blanks, isBlankLine line)
    (inherits : Bool) (lines : List (List Char)) :
    faults number inherits (lines ++ blanks) = faults number inherits lines := by
  induction lines generalizing number inherits with
  | nil =>
    induction blanks generalizing number with
    | nil => rfl
    | cons line blanks ih =>
      rw [List.forall_mem_cons] at h
      simpa [faults, ofLine?_eq_none_of_blank h.1] using ih h.2
  | cons line lines ih => simp [faults, ih]

/-- The faults of the leading block are those of the lines at the top. -/
lemma faults_block (text : List Char) :
    faults 1 false (block text) = lineFaults (leading text) := by
  obtain ⟨blanks, hblanks, hleading⟩ := takeWhile_isLeading text
  calc faults 1 false (block text)
      = faults 1 false (leading text) := by rw [leading, hleading, faults_append_blank hblanks]
    _ = lineFaults (leading text) := faults_eq_lineFaults _

lemma ofText_eq_error {ds : List Diagnostic} :
    ofText text = .error ds ↔ ds ≠ [] ∧ ds = lineFaults (leading text) := by
  rw [ofText, ← block, faults_block]
  split
  case h_1 hnil =>
    rw [hnil]
    exact iff_of_false (by simp) fun h => h.1 h.2
  case h_2 hne =>
    rw [Except.error.injEq]
    exact ⟨fun h => ⟨h ▸ hne, h.symm⟩, fun h => h.2.symm⟩

/-- The types that lines name are as many as the lines that name one. -/
lemma length_types_directives (lines : List (List Char)) :
    (types (directives lines)).length = lines.countP namesType := by
  induction lines with
  | nil => rfl
  | cons line lines ih =>
    rw [List.countP_cons, ← ih, directives, List.filterMap_cons, ← directives, namesType]
    cases hline : ofLine? line with
    | none => simp
    | some read =>
      cases read with
      | error f => simp
      | ok d => cases d <;> simp [types]

/-- Lines are at fault when one of them is in the shape of a directive and is none, or a second one
names a type. -/
theorem lineFaults_ne_nil_iff : lineFaults lines ≠ [] ↔
    (∃ line ∈ lines, ∃ f, ofLine? line = some (.error f)) ∨ 2 ≤ lines.countP namesType := by
  rw [← faults_eq_lineFaults, Ne, faults_eq_nil_iff, length_types_directives, not_and_or]
  refine or_congr (by simp) ?_
  simp only [Bool.not_false, Bool.toNat_true]
  omega

/-- A text is rejected when a line of its leading block is in the shape of a directive and is none,
or when a second one names a type. What is reported then is what is wrong with each of these lines,
one after the other; the body is not looked at. -/
theorem faults_line_by_line (text : List Char) :
    ((∃ ds, ofText text = .error ds) ↔
      (∃ line ∈ leading text, ∃ f, ofLine? line = some (.error f)) ∨
        2 ≤ (leading text).countP namesType) ∧
    ∀ ds, ofText text = .error ds →
      (ds = (leading text).zipIdx.filterMap fun (line, i) =>
        lineFault? ((leading text).take i) line (i + 1)) ∧
      ∀ g module c, c.decoded = .ok (String.ofList text) → translate g module c = .error ds := by
  refine ⟨?_, fun ds hds => ⟨(ofText_eq_error.mp hds).2, fun g module c hdecoded => ?_⟩⟩
  · rw [← lineFaults_ne_nil_iff]
    constructor
    · rintro ⟨ds, hds⟩
      obtain ⟨hne, rfl⟩ := ofText_eq_error.mp hds
      exact hne
    · exact fun hne => ⟨_, ofText_eq_error.mpr ⟨hne, rfl⟩⟩
  · have htext : ofText (String.ofList text).toList = .error ds := by
      rw [String.toList_ofList]
      exact hds
    simp only [translate, hdecoded, htext, Except.mapError, bind, Except.bind]

theorem faults_line_by_line_mixed :
    let text := "\n@inherits\r\n@frob x\n@inherits V\n@using 1\n \n@inherits W\n\x7b\x7b"
    let ds : List Diagnostic :=
      [⟨.error, "STC0011", "'@inherits' requires an argument", some ⟨2, some 1⟩⟩,
        ⟨.error, "STC0010", "unknown directive '@frob'", some ⟨3, some 1⟩⟩,
        ⟨.error, "STC0011", "'1' is not a valid namespace", some ⟨5, some 1⟩⟩,
        ⟨.error, "STC0012", "'@inherits' may only appear once", some ⟨7, some 1⟩⟩]
    ofText text.toList = .error ds ∧ lineFaults (leading text.toList) = ds ∧
      (Content.text text).decoded = .ok (String.ofList text.toList) ∧
      translate {} "Views.Home" (.text text) = .error ds := by
  intro text ds
  have hfaults : ofText text.toList = .error ds := by decide +kernel
  have hdecoded : (Content.text text).decoded = .ok (String.ofList text.toList) := by
    decide +kernel
  obtain ⟨heq, htranslate⟩ := (faults_line_by_line text.toList).2 ds hfaults
  exact ⟨hfaults, heq.symm, hdecoded, htranslate {} "Views.Home" (.text text) hdecoded⟩

end Markup

end CompiledViews
