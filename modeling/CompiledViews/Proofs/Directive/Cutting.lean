import CompiledViews.Proofs.Code.Translation
import CompiledViews.Proofs.Template.Position

/-! Where a template is cut. The leading block ends with its last directive, and what is below it is
the body, whose positions are those of the template, as many lines up as there are in the block. -/

namespace CompiledViews.Markup

open Text Directive Template

variable {text front : List Char} {m : Markup} {line : List Char}

/-- A text is cut into a front, which ends with a line, and a body. The lines of the front are blank
or directives, and the last one is a directive; the first line of the body that is not blank is
none. What the directives say is kept: the only type that they name, and the namespaces that they
use, each once and in the order in which they appear first. -/
structure Cuts (text front : List Char) (m : Markup) : Prop where
  joined : text = front ++ m.body
  boundary : front = [] ∨ front.getLast? = some '\n' ∨ m.body = []
  lines : ∀ line ∈ linesList front, isBlankLine line ∨ ∃ d, ofLine? line = some (.ok d)
  last : ∀ line ∈ (linesList front).getLast?, ∃ d, ofLine? line = some (.ok d)
  plain : Plain m.body
  inherits : types (directives (linesList front)) = m.inherits.toList
  imports : ∀ ns, ns ∈ m.imports ↔ ns ∈ namespaces (directives (linesList front))
  order : m.imports.Pairwise fun ns ns' =>
    (namespaces (directives (linesList front))).idxOf ns <
      (namespaces (directives (linesList front))).idxOf ns'
  offset : m.offset = (linesList front).length

/-- In a block without faults, what is in the shape of a directive is one. -/
lemma exists_ok_of_isSome (hfaults : faults 1 false (block text) = []) (hline : line ∈ block text)
    (hsome : (ofLine? line).isSome) : ∃ d, ofLine? line = some (.ok d) := by
  obtain ⟨read, hread⟩ := Option.isSome_iff_exists.mp hsome
  cases read with
  | error f => exact absurd hread (((faults_eq_nil_iff ..).mp hfaults).1 line hline f)
  | ok d => exact ⟨d, hread⟩

/-- A text that can be cut is cut below its leading block. -/
theorem exists_cuts (h : ofText text = .ok m) : ∃ front, Cuts text front m := by
  obtain ⟨hfaults, rfl⟩ := ofText_eq_ok_iff.mp h
  obtain ⟨hlines, -, hend⟩ := linesList_cut text (blockLength (linesList text))
  rw [← block] at hlines hend
  obtain ⟨-, hone⟩ := (faults_eq_nil_iff ..).mp hfaults
  refine ⟨(block text).flatten, ?joined, hend, ?lines, ?last, plain_below_block text, ?inherits,
    ?imports, ?order, ?offset⟩
  case joined => rw [block, ← List.flatten_append, List.take_append_drop, linesList_flatten]
  all_goals rw [hlines]
  case lines =>
    intro line hline
    have hleading := isLeading_of_mem_block hline
    rw [isLeading, Bool.or_eq_true] at hleading
    exact hleading.imp_right (exists_ok_of_isSome hfaults hline)
  case last =>
    exact fun line hline =>
      exists_ok_of_isSome hfaults (List.mem_of_mem_getLast? hline) (isSome_of_getLast?_block hline)
  case inherits =>
    cases htypes : types (directives (block text)) with
    | nil => rfl
    | cons type others =>
      obtain rfl : others = [] := by simpa [htypes] using hone
      rfl
  case imports => exact fun ns => List.mem_eraseDups
  case order => exact pairwise_idxOf_eraseDups _
  case offset => rw [block, List.length_take, Nat.min_eq_left (blockLength_le _)]

/-- Where there is something below the leading block, its positions are those of the text, as many
lines up as there are in the block. -/
theorem Cuts.position_at (h : Cuts text front m) (hne : m.body ≠ []) (n : ℕ) :
    Position.at text (front.length + n) =
      ⟨(Position.at m.body n).line + m.offset, (Position.at m.body n).column⟩ := by
  have hend : front = [] ∨ front.getLast? = some '\n' :=
    h.boundary.imp_right fun hend => hend.resolve_right hne
  rw [h.joined, Position.at_append hend, h.offset, length_linesList hend]

/-- A text without faults is cut below its leading block. Every position in the body is that many
lines further down in the text, and what is wrong with the body is reported at the line of the text
where it is. -/
theorem cut_below_block (h : ofText text = .ok m) :
    ∃ front, Cuts text front m ∧
      (m.body ≠ [] → ∀ n, Position.at text (front.length + n) =
        ⟨(Position.at m.body n).line + m.offset, (Position.at m.body n).column⟩) ∧
      ∀ g module c f, c.decoded = .ok (String.ofList text) →
        Template.parse (String.ofList m.body) = .error f →
        translate g module c = .error [⟨.error, Diagnostic.unreadableBody, f.message,
          f.position?.map fun p => ⟨p.line + m.offset, some p.column⟩⟩] ∧
        ∀ p ∈ f.position?, ∃ n ≤ m.body.length, Position.at m.body n = p ∧
          Position.at text (front.length + n) = ⟨p.line + m.offset, p.column⟩ := by
  obtain ⟨front, hcuts⟩ := exists_cuts h
  refine ⟨front, hcuts, hcuts.position_at, fun g module c f hdecoded hparse => ⟨?_, ?_⟩⟩
  · have htext : ofText (String.ofList text).toList = .ok m := by
      rw [String.toList_ofList]
      exact h
    rw [translate_of_ofText hdecoded htext, readBody, hparse]
    rfl
  · intro p hp
    have hne : m.body ≠ [] := by
      intro hnil
      rw [hnil, parse_empty] at hparse
      cases hparse
    obtain ⟨n, hn, rfl⟩ := exists_position_of_parse hparse p hp
    rw [String.toList_ofList] at hn ⊢
    exact ⟨n, hn, rfl, hcuts.position_at hne n⟩

theorem cut_below_block_open_tag :
    let text := "\n@using A.B\r\n \n@inherits V\n@using A.B\n\nπ\x7b\x7b"
    let m : Markup := ⟨some "V", ["A.B"], "\nπ\x7b\x7b".toList, 5⟩
    ofText text.toList = .ok m ∧ m.body ≠ [] ∧
      Template.parse "\nπ\x7b\x7b" = .error (.unreadable ⟨2, 4⟩) ∧
      ∃ front, Cuts text.toList front m ∧
        Position.at text.toList (front.length + 1) = ⟨7, 1⟩ ∧
        translate {} "Views.Home" (.text text) = .error
          [⟨.error, "STC0001", "invalid handlebars syntax", some ⟨7, some 4⟩⟩] := by
  intro text m
  have hcut : ofText text.toList = .ok m := by decide +kernel
  have hparse : Template.parse "\nπ\x7b\x7b" = .error (.unreadable ⟨2, 4⟩) := by
    have hfails : (Template.parse "\nπ\x7b\x7b").map (fun _ => ()) =
        .error (.unreadable ⟨2, 4⟩) := by
      decide +kernel
    exact Except.map_eq_error_iff.mp hfails
  have hdecoded : (Content.text text).decoded = .ok (String.ofList text.toList) := by
    decide +kernel
  obtain ⟨front, hcuts, hpositions, hfaults⟩ := cut_below_block hcut
  exact ⟨hcut, by decide, hparse, front, hcuts, hpositions (by decide) 1,
    (hfaults {} "Views.Home" (.text text) _ hdecoded hparse).1⟩

end CompiledViews.Markup
