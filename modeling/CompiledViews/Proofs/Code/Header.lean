import CompiledViews.Code.Compilation
import CompiledViews.Proofs.Text.Lines

/-! Generated code, written and read back. Values that can stand on a line are read as they were
written, and the body is all that follows the first line of dashes, whatever stands in it. -/

namespace CompiledViews

open Text

namespace Code

namespace Entry

def keyword : Entry → String
  | .module _ => "module"
  | .ns _ => "namespace"
  | .inherits _ => "inherits"
  | .import_ _ => "import"
  | .origin _ => "origin"

def value : Entry → String
  | .module name => name
  | .ns name => name
  | .inherits name => name
  | .import_ used => used
  | .origin o => o.word

/-- The line of the header that says what the entry says, without its line feed. -/
def line (e : Entry) : String := "#" ++ e.keyword ++ " " ++ e.value

lemma toList_line (e : Entry) :
    e.line.toList = '#' :: (e.keyword.toList ++ ' ' :: e.value.toList) := by simp [line]

lemma space_not_mem_keyword (e : Entry) : ' ' ∉ e.keyword.toList := by
  cases e <;> simp [keyword]

lemma inline_line {e : Entry} (h : Inline e.value) : Inline e.line where
  ne_nil := by simp [toList_line]
  oneLine := by
    have hkeyword : '\n' ∉ e.keyword.toList := by cases e <;> simp [keyword]
    simp [toList_line, hkeyword, h.oneLine]
  trimmed := by
    rw [toList_line]
    refine ⟨by simp; decide, fun c hc => h.trimmed.2 c ?_⟩
    rw [← List.cons_append, List.getLast?_append_of_ne_nil _ (by simp), ← List.singleton_append,
      List.getLast?_append_of_ne_nil _ h.ne_nil] at hc
    exact hc

end Entry

theorem keyAndValue?_line {e : Entry} (h : Inline e.value) :
    keyAndValue? e.line.toList = some (e.keyword.toList, e.value.toList) := by
  have hstop : ∀ c ∈ e.keyword.toList, decide (c ≠ ' ') = true := by
    intro c hc
    simpa using fun he : c = ' ' => e.space_not_mem_keyword (he ▸ hc)
  rw [Entry.toList_line, keyAndValue?, List.takeWhile_append_of_pos hstop,
    List.dropWhile_append_of_pos hstop, List.takeWhile_cons_of_neg (by simp),
    List.dropWhile_cons_of_neg (by simp), List.append_nil, List.drop_one, List.tail_cons,
    h.trimmed.trimList_eq]
  exact if_neg (by simpa using h.ne_nil)

lemma readEntries_eq (lines : List (List Char)) :
    readEntries lines = ((lines.map readEntry).zipIdx 1).map fun (entry, i) => (i, entry) := by
  simp [readEntries, List.zipIdx_map, List.zipIdx_succ, Function.comp_def]

/-- An entry whose value can stand on a line is read back from its line. -/
theorem readEntry_line {e : Entry} (h : Inline e.value) : readEntry e.line.toList = .ok e := by
  rw [readEntry, keyAndValue?_line h]
  cases e <;> simp [Entry.keyword, Entry.value]

theorem isSeparator_line {e : Entry} (h : Inline e.value) :
    isSeparator (e.line.toList ++ ['\n']) = false := by
  rw [isSeparator, stripLineEnd_newline (Entry.inline_line h).trimmed, Entry.toList_line]
  exact decide_eq_false (by simp)

end Code

open Code

namespace Manifest

variable {m : Manifest}

/-- What the header says, line by line. -/
def entries (m : Manifest) : List Entry :=
  [.module m.module, .ns m.ns, .inherits m.inherits] ++ m.imports.map .import_ ++
    [.origin m.origin]

/-- The entries as they are read, each with the number of its line. -/
def numbered (m : Manifest) : List (Nat × Except String Entry) :=
  [(1, .ok (.module m.module)), (2, .ok (.ns m.ns)), (3, .ok (.inherits m.inherits))] ++
    (m.imports.zipIdx 4).map (fun (ns, line) => (line, .ok (.import_ ns))) ++
    [(m.imports.length + 4, .ok (.origin m.origin))]

/-- All values of the header can stand on a line. -/
def Writable (m : Manifest) : Prop := ∀ e ∈ m.entries, Inline e.value

/-- What is said of the imports that are neither among the references nor the module's own
namespace. -/
def unresolved (references : List String) (m : Manifest) : List Diagnostic :=
  (m.imports.zipIdx 4).filterMap fun (ns, line) =>
    if ns ∈ references ∨ ns = m.ns then none
    else some (.errorAtLine Diagnostic.unresolvedImport s!"the namespace '{ns}' could not be found"
      line)

theorem unresolved_eq_nil_iff (references : List String) :
    m.unresolved references = [] ↔ ∀ ns ∈ m.imports, ns ∈ references ∨ ns = m.ns := by
  rw [unresolved, List.filterMap_eq_nil_iff]
  constructor
  · intro h ns hns
    rw [← List.zipIdx_map_fst 4 m.imports] at hns
    obtain ⟨entry, hentry, rfl⟩ := List.mem_map.mp hns
    by_contra hunresolved
    simpa [hunresolved] using h entry hentry
  · rintro h ⟨ns, line⟩ hline
    exact if_pos (h ns (List.fst_mem_of_mem_zipIdx hline))

lemma inline_word (o : Origin) : Inline o.word := by
  cases o <;> exact .of_no_blank (by decide) (by decide)

theorem writable_iff : m.Writable ↔
    Inline m.module ∧ Inline m.ns ∧ Inline m.inherits ∧ ∀ ns ∈ m.imports, Inline ns := by
  simp only [Writable, entries, List.forall_mem_append, List.forall_mem_map, List.forall_mem_cons]
  simp [Entry.value, inline_word, and_assoc]

lemma headerLines_eq (m : Manifest) : m.headerLines = m.entries.map Entry.line := by
  simp [headerLines, entries, Entry.line, Entry.keyword, Entry.value, Function.comp_def]

lemma toList_code (m : Manifest) : m.code.toList =
    ((m.entries.map fun e => e.line.toList) ++ ["---".toList]).flatMap (· ++ ['\n']) ++
      m.body.toList := by
  simp [code, headerLines_eq, String.toList_join, List.flatMap_map]

/-- The lines of code: one for each entry, the line of dashes, and those of the body. -/
theorem linesList_code (h : m.Writable) : linesList m.code.toList =
    (m.entries.map fun e => e.line.toList ++ ['\n']) ++
      ("---".toList ++ ['\n']) :: linesList m.body.toList := by
  have hlines : ∀ line ∈ (m.entries.map fun e => e.line.toList) ++ ["---".toList],
      '\n' ∉ line := by
    rw [List.forall_mem_append]
    refine ⟨?_, by simp⟩
    rw [List.forall_mem_map]
    exact fun e he => (Entry.inline_line (h e he)).oneLine
  rw [toList_code, linesList_flatMap_append hlines]
  simp

theorem readEntries_code (h : m.Writable) :
    readEntries ((m.entries.map fun e => e.line.toList ++ ['\n']).map stripLineEnd) =
      m.numbered := by
  have hread : (m.entries.map fun e => readEntry (stripLineEnd (e.line.toList ++ ['\n']))) =
      m.entries.map .ok := by
    refine List.map_congr_left fun e he => ?_
    rw [stripLineEnd_newline (Entry.inline_line (h e he)).trimmed, readEntry_line (h e he)]
  rw [readEntries_eq, List.map_map, List.map_map]
  simp only [Function.comp_def]
  rw [hread]
  simp [entries, numbered, List.zipIdx_append, List.zipIdx_map, Function.comp_def, Nat.add_comm]

lemma badEntries_numbered (m : Manifest) : badEntries m.numbered = [] := by
  simp [badEntries, numbered, List.filterMap_map]

lemma imports_numbered (m : Manifest) :
    Code.imports m.numbered = (m.imports.zipIdx 4).map fun (ns, line) => (line, ns) := by
  simp [Code.imports, numbered, List.filterMap_map]

lemma checkImports_eq (references : List String) (m : Manifest) :
    checkImports references m.ns ((m.imports.zipIdx 4).map fun (ns, line) => (line, ns)) =
      m.unresolved references := by
  simp [checkImports, unresolved, List.filterMap_map]

section Last

variable {α : Type} {f : Entry → Option α}

lemma last?_append (es es' : List (Nat × Except String Entry)) :
    last? (es ++ es') f = (last? es' f).or (last? es f) := by
  rw [last?, List.reverse_append, List.findSome?_append]
  rfl

/-- Where nothing is picked from imports, the last entry from which something is picked is another
one. -/
lemma last?_numbered (m : Manifest) (himports : ∀ ns, f (.import_ ns) = none) :
    last? m.numbered f = (last? [(m.imports.length + 4, .ok (.origin m.origin))] f).or
      (last? [(1, .ok (.module m.module)), (2, .ok (.ns m.ns)), (3, .ok (.inherits m.inherits))]
        f) := by
  have hnone : last? ((m.imports.zipIdx 4).map fun (ns, line) =>
      (line, (.ok (.import_ ns) : Except String Entry))) f = none := by
    rw [last?, List.findSome?_eq_none_iff]
    rintro entry hentry
    obtain ⟨⟨ns, line⟩, -, rfl⟩ := List.mem_map.mp (List.mem_reverse.mp hentry)
    simp [himports]
  rw [numbered, last?_append, last?_append, hnone, Option.none_or]

end Last

/-- Code is read as the manifest it was made from, as far as its imports resolve. -/
theorem read_code (h : m.Writable) {nodes : List Template.Node}
    (hbody : Template.parse m.body = .ok nodes) (references : List String) :
    Code.read references m.module m.code =
      match m.unresolved references with
      | [] => .ok m
      | ds => .error ds := by
  have hheader : (linesList m.code.toList).takeWhile (!isSeparator ·) =
      m.entries.map fun e => e.line.toList ++ ['\n'] := by
    rw [linesList_code h, List.takeWhile_append_of_pos, List.takeWhile_cons_of_neg (by decide),
      List.append_nil]
    rw [List.forall_mem_map]
    exact fun e he => by simp [isSeparator_line (h e he)]
  have hbelow : (linesList m.code.toList).drop
      ((m.entries.map fun e => e.line.toList ++ ['\n']).length + 1) = linesList m.body.toList := by
    rw [linesList_code h, List.drop_length_add_append]
    rfl
  have hfound : (m.entries.map fun e => e.line.toList ++ ['\n']).length ≠
      (linesList m.code.toList).length := by
    rw [linesList_code h, List.length_append, List.length_cons]
    omega
  have hpicked : ∀ line, readBody line (String.ofList (linesList m.body.toList).flatten) =
      .ok nodes := by
    intro line
    rw [linesList_flatten, String.ofList_toList, readBody, hbody]
    rfl
  unfold Code.read
  simp only [hheader, hbelow, if_neg hfound, readEntries_code h, badEntries_numbered,
    imports_numbered, hpicked, last?_numbered, implies_true]
  cases hlost : m.unresolved references <;>
    simp [last?, checkModule, checkImports_eq, linesList_flatten, Function.comp_def, hlost]

end Manifest

end CompiledViews
