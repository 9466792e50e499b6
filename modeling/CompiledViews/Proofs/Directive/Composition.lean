import CompiledViews.Directive.Compose
import CompiledViews.Proofs.Directive.Block

/-! A composed template is cut where it was put together: the directives before the body are read as
what they were made from, and the body is read as it is on its own. -/

namespace CompiledViews.Generation

open Text Directive Markup

variable {g : Generation} {model : Option TypeName}

/-- The type that the view of a template with the given model inherits from. -/
def parent (g : Generation) : Option TypeName → String
  | some model => g.baseType ++ "<" ++ model.name ++ ">"
  | none => g.baseType

/-- The namespaces that a template with the given model uses. -/
def namespaces (g : Generation) (model : Option TypeName) : List String :=
  (model.bind TypeName.ns).toList ++ g.imports

/-- The lines that composing puts before a body. -/
def lines (g : Generation) (model : Option TypeName) : List (List Char) :=
  (g.directives model).map fun d => d.text.toList ++ ['\n']

theorem directives_eq (g : Generation) (model : Option TypeName) :
    g.directives model = .inherits (g.parent model) :: (g.namespaces model).map .uses := by
  cases model with
  | none => rfl
  | some model =>
    obtain ⟨ns, name⟩ := model
    cases ns <;> simp [directives, parent, namespaces]

lemma toList_compose (g : Generation) (model : Option TypeName) (body : String) :
    (g.compose model body).toList =
      ((g.directives model).map fun d => d.text.toList).flatMap (· ++ ['\n']) ++ body.toList := by
  simp [compose, String.toList_join, List.flatMap_map]

/-- Where the type to inherit from stands on a line, so does that of every view. -/
theorem newline_not_mem_parent (hbase : '\n' ∉ g.baseType.toList)
    (hmodel : ∀ t ∈ model, t.Spelled) : '\n' ∉ (g.parent model).toList := by
  cases model with
  | none => exact hbase
  | some t =>
    have hname := (inline_of_isQualifiedName (hmodel t rfl).qualified.2).oneLine
    simp [parent, hbase, hname]

theorem inline_parent (hbase : Inline g.baseType) (hmodel : ∀ t ∈ model, t.Spelled) :
    Inline (g.parent model) := by
  cases model with
  | none => exact hbase
  | some t =>
    have hname := inline_of_isQualifiedName (hmodel t rfl).qualified.2
    exact ((hbase.append (.of_no_blank (by decide) (by decide))).append hname).append
      (.of_no_blank (by decide) (by decide))

theorem isQualifiedName_namespaces (himports : ∀ ns ∈ g.imports, isQualifiedName ns = true)
    (hmodel : ∀ t ∈ model, t.Spelled) :
    ∀ ns ∈ g.namespaces model, isQualifiedName ns = true := by
  intro ns hns
  rcases List.mem_append.mp hns with hns | hns
  · obtain ⟨t, ht, hnst⟩ := Option.bind_eq_some_iff.mp (Option.mem_toList.mp hns)
    exact (hmodel t ht).qualified.1 ns hnst
  · exact himports ns hns

/-- The lines of a composed template: a line for each directive, and then those of the body. -/
theorem linesList_compose (hbase : '\n' ∉ g.baseType.toList)
    (himports : ∀ ns ∈ g.imports, isQualifiedName ns = true) (hmodel : ∀ t ∈ model, t.Spelled)
    (body : String) :
    linesList (g.compose model body).toList = g.lines model ++ linesList body.toList := by
  have hlines : ∀ line ∈ (g.directives model).map fun d => d.text.toList, '\n' ∉ line := by
    have hparent := newline_not_mem_parent hbase hmodel
    have hns := fun ns hns => (inline_of_isQualifiedName
      (isQualifiedName_namespaces himports hmodel ns hns)).oneLine
    rw [directives_eq]
    simpa [Directive.text, hparent] using hns
  rw [toList_compose, linesList_flatMap_append hlines, List.map_map]
  rfl

/-- The lines put before a body are read as directives that say the same, blanks around the type
apart. -/
theorem spells_lines (hbase : ∃ c ∈ g.baseType.toList, isBlank c = false)
    (himports : ∀ ns ∈ g.imports, isQualifiedName ns = true) (hmodel : ∀ t ∈ model, t.Spelled) :
    Spells (g.lines model)
      (.inherits (trim (g.parent model)) :: (g.namespaces model).map .uses) := by
  have hparent : ∃ c ∈ (g.parent model).toList, isBlank c = false := by
    obtain ⟨c, hc, hblank⟩ := hbase
    refine ⟨c, ?_, hblank⟩
    cases model <;> simp [parent, hc]
  have hns : ∀ ns ∈ g.namespaces model,
      ofLine? ((Directive.uses ns).text.toList ++ ['\n']) = some (.ok (.uses ns)) :=
    fun ns hns => ofLine?_uses (isQualifiedName_namespaces himports hmodel ns hns)
  rw [Spells, lines, directives_eq, List.map_cons, List.map_cons, List.map_cons,
    ofLine?_inherits hparent]
  simpa using hns

lemma types_spelled (type : String) (nss : List String) :
    types (.inherits type :: nss.map .uses) = [type] := by
  simp [types, List.filterMap_map]

lemma namespaces_spelled (type : String) (nss : List String) :
    Markup.namespaces (.inherits type :: nss.map .uses) = nss := by
  simp [Markup.namespaces, List.filterMap_map]

/-- Composing adds to what a body says: the body of the template is the body's, and starts as many
lines later as there are directives before it. -/
theorem ofText_compose_eq_ok (hline : '\n' ∉ g.baseType.toList)
    (hbase : ∃ c ∈ g.baseType.toList, isBlank c = false)
    (himports : ∀ ns ∈ g.imports, isQualifiedName ns = true) (hmodel : ∀ t ∈ model, t.Spelled)
    {body : String} {imports : List String} {rest : List Char} {offset : Nat}
    (hbody : ofText body.toList = .ok ⟨none, imports, rest, offset⟩) :
    ofText (g.compose model body).toList = .ok ⟨some (trim (g.parent model)),
      (g.namespaces model ++ imports).eraseDups, rest,
      (g.directives model).length + offset⟩ := by
  have htext := ofText_prepend (spells_lines hbase himports hmodel)
    (linesList_compose hline himports hmodel body) (by rw [types_spelled]; rfl) hbody
  rw [types_spelled, namespaces_spelled] at htext
  rw [htext, directives_eq, List.length_cons, List.length_cons, List.length_map]
  rfl

/-- Composing and cutting again. A body that names no type keeps its namespaces, after those that
composing adds, and all of its text; composing fails a body just where the body fails on its own or
names a type to inherit from; and a plain body is the body, whatever stands in it. -/
theorem ofText_compose (hbase : Inline g.baseType)
    (himports : ∀ ns ∈ g.imports, isQualifiedName ns = true) (hmodel : ∀ t ∈ model, t.Spelled)
    (body : String) :
    (∀ imports rest offset, ofText body.toList = .ok ⟨none, imports, rest, offset⟩ →
      ofText (g.compose model body).toList = .ok ⟨some (g.parent model),
        (g.namespaces model ++ imports).eraseDups, rest,
        (g.directives model).length + offset⟩) ∧
    ((∃ ds, ofText (g.compose model body).toList = .error ds) ↔
      (∃ ds, ofText body.toList = .error ds) ∨
        ∃ line ∈ block body.toList, ∃ type, ofLine? line = some (.ok (.inherits type))) ∧
    (Plain body.toList →
      ofText (g.compose model body).toList = .ok ⟨some (g.parent model),
        (g.namespaces model).eraseDups, body.toList, (g.directives model).length⟩) := by
  have hparent : trim (g.parent model) = g.parent model := (inline_parent hbase hmodel).trim_eq
  have hok : ∀ imports rest offset, ofText body.toList = .ok ⟨none, imports, rest, offset⟩ →
      ofText (g.compose model body).toList = .ok ⟨some (g.parent model),
        (g.namespaces model ++ imports).eraseDups, rest,
        (g.directives model).length + offset⟩ := by
    intro imports rest offset hbody
    rw [ofText_compose_eq_ok hbase.oneLine hbase.exists_not_blank himports hmodel hbody, hparent]
  refine ⟨hok, ?_, fun hplain => ?_⟩
  · rw [ofText_prepend_eq_error_iff (spells_lines hbase.exists_not_blank himports hmodel)
      (linesList_compose hbase.oneLine himports hmodel body) (by rw [types_spelled]; rfl)]
    refine or_congr_right ?_
    rw [Ne, List.eq_nil_iff_forall_not_mem]
    simp only [not_forall, not_not, mem_types, mem_directives]
    rw [exists_comm]
    simp only [exists_and_left]
  · simpa using hok [] body.toList 0 hplain.ofText_eq

theorem ofText_compose_order :
    let g : Generation := { baseType := "App.ViewBase", imports := ["App.Shared"] }
    let order : TypeName := ⟨some "Shop.Models", "Order"⟩
    let body := "\n@using App.Shared\n@using B\r\n---\r\nx"
    Inline g.baseType ∧ (∀ ns ∈ g.imports, isQualifiedName ns = true) ∧
      (∀ t ∈ some order, t.Spelled) ∧
      ofText (g.compose order body).toList = .ok ⟨some "App.ViewBase<Order>",
        ["Shop.Models", "App.Shared", "B"], "---\r\nx".toList, 6⟩ := by
  intro g order body
  have hbase : Inline g.baseType := inline_of_isQualifiedName (by decide)
  have himports : ∀ ns ∈ g.imports, isQualifiedName ns = true := by decide
  have hmodel : ∀ t ∈ some order, t.Spelled := by
    rintro t ⟨⟩
    exact ⟨"Shop.Models.Order", by decide +kernel⟩
  have hbody : ofText body.toList = .ok ⟨none, ["App.Shared", "B"], "---\r\nx".toList, 3⟩ := by
    decide +kernel
  exact ⟨hbase, himports, hmodel, (ofText_compose hbase himports hmodel body).1 _ _ _ hbody⟩

end CompiledViews.Generation
