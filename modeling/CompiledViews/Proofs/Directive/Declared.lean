import CompiledViews.Proofs.Directive.Composition
import CompiledViews.Proofs.Naming.Segment

/-! The model that a template declares. Its name is split into a namespace and a name, and joined
again it is what was read; so the line that composing writes for its namespace is a directive. -/

namespace CompiledViews

open Text Directive

namespace Generation

/-- Right below the lines that say what to inherit from, composing writes a line for the namespace
of the model. -/
theorem linesList_compose_model (g : Generation) {model : TypeName} {ns : String}
    (hmodel : model.Spelled) (hns : model.ns = some ns) (body : String) :
    ∃ rest, linesList (g.compose (some model) body).toList =
      linesList ((inherits (g.parent (some model))).text.toList ++ ['\n']) ++
        ((uses ns).text.toList ++ ['\n']) :: rest := by
  have hline : '\n' ∉ (uses ns).text.toList := by
    have hname := (inline_of_isQualifiedName (hmodel.qualified.1 ns hns)).oneLine
    simpa [Directive.text] using hname
  have hnss : g.namespaces (some model) = ns :: g.imports := by simp [namespaces, hns]
  rw [toList_compose, directives_eq, hnss]
  simp only [List.map_cons, List.flatMap_cons, List.append_assoc, List.cons_append,
    List.nil_append]
  rw [linesList_append_newline, linesList_cons_line hline]
  exact ⟨_, rfl⟩

end Generation

namespace TypeName

/-- Names split and rejoin. A dotted name is what the language says, and all its pieces between dots
are segments; a type is read from just the texts that are dotted names once they are trimmed; what
is read is printed as the trimmed text, and read again from it; and for the namespace of a model
composing writes, below the type to inherit from, a line that is a directive. -/
theorem split_rejoined (s : String) :
    (isQualifiedName s = true ↔ s.toList ∈ Naming.dotted) ∧
    (isQualifiedName s = true ↔ ∀ piece ∈ split Naming.isDot s, Naming.IsSegment piece.toList) ∧
    ((∃ t, ofText? s = some t) ↔ isQualifiedName (trim s) = true) ∧
    ∀ t, ofText? s = some t → t.SpelledBy s ∧
      ∀ (g : Generation) (body : String), ∀ ns ∈ t.ns,
        (∃ rest, linesList (g.compose (some t) body).toList =
          linesList ((inherits (g.parent (some t))).text.toList ++ ['\n']) ++
            ((uses ns).text.toList ++ ['\n']) :: rest) ∧
        ofLine? ((uses ns).text.toList ++ ['\n']) = some (.ok (.uses ns)) := by
  refine ⟨Naming.isQualifiedName_iff_mem_dotted s, Naming.isQualifiedName_iff_forall_isSegment s,
    ?_, fun t ht => ?_⟩
  · simp only [ofText?_eq_some_iff]
    exact ⟨fun ⟨_, hname, _⟩ => hname, fun hname => ⟨_, hname, rfl⟩⟩
  · have hspelled := SpelledBy.of_ofText? ht
    refine ⟨hspelled, fun g body ns hns => ⟨?_, ofLine?_uses (hspelled.ns ns hns)⟩⟩
    exact g.linesList_compose_model ⟨s, ht⟩ hns body

theorem split_rejoined_order :
    let order : TypeName := ⟨some "Shop.Models", "Order"⟩
    ofText? " Shop.Models.Order\n" = some order ∧ order.SpelledBy " Shop.Models.Order\n" ∧
      ofLine? "@using Shop.Models\n".toList = some (.ok (.uses "Shop.Models")) := by
  intro order
  have hread : ofText? " Shop.Models.Order\n" = some order := by decide +kernel
  obtain ⟨hspelled, hdirective⟩ := (split_rejoined " Shop.Models.Order\n").2.2.2 order hread
  exact ⟨hread, hspelled, (hdirective { } "x" "Shop.Models" rfl).2⟩

end TypeName

end CompiledViews
