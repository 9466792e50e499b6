import CompiledViews.Config.Loading
import CompiledViews.Proofs.Code.Translation
import CompiledViews.Proofs.Directive.Composition
import CompiledViews.Proofs.Text.Utf8

/-! The templates in a valid configuration. What a configuration says is put before the body of such
a template and read back from there; as long as the type to inherit from stands on one line, the
body stays as it was. -/

namespace CompiledViews

open Text Markup

namespace Config

variable {c : Config}

/-- What is demanded of a configuration. -/
structure Valid (c : Config) : Prop where
  ns : isQualifiedName c.generation.ns = true
  baseType : ∃ x ∈ c.generation.baseType.toList, isBlank x = false
  imports : ∀ ns ∈ c.generation.imports, isQualifiedName ns = true
  references : ∀ ns ∈ c.references, isQualifiedName ns = true
  pattern : ∃ w, Wildcard.ofText c.sources.pattern = .ok w
  names : ∀ name ∈ c.sources.templates.keys, ∃ x ∈ name.toList, isBlank x = false

lemma isEmpty_trim_eq_false_iff (s : String) :
    (trim s).isEmpty = false ↔ ∃ x ∈ s.toList, isBlank x = false := by
  have hnil : (trim s).isEmpty = true ↔ ∀ x ∈ s.toList, isBlank x = true := by
    rw [← trimList_eq_nil_iff, String.isEmpty_iff, trim, String.ofList_eq_empty_iff]
  rw [← Bool.not_eq_true, hnil]
  simp

theorem complaint?_eq_none_iff : c.complaint? = none ↔ c.Valid := by
  constructor
  · intro h
    rw [complaint?] at h
    split at h
    case isTrue => cases h
    case isFalse hns =>
      split at h
      case isTrue => cases h
      case isFalse hbase =>
        split at h
        case h_1 => cases h
        case h_2 himports =>
          split at h
          case h_1 => cases h
          case h_2 hreferences =>
            split at h
            case h_1 => cases h
            case h_2 w hpattern =>
              rw [ite_eq_right_iff] at h
              exact {
                ns := by simpa using hns
                baseType := (isEmpty_trim_eq_false_iff _).mp (by simpa using hbase)
                imports := by simpa using himports
                references := by simpa using hreferences
                pattern := ⟨w, hpattern⟩
                names := by
                  simp only [← isEmpty_trim_eq_false_iff]
                  simpa using h }
  · intro h
    obtain ⟨w, hpattern⟩ := h.pattern
    have hbase := (isEmpty_trim_eq_false_iff _).mpr h.baseType
    have himports : c.generation.imports.find? (!isQualifiedName ·) = none :=
      List.find?_eq_none.mpr fun ns hns => by simp [h.imports ns hns]
    have hreferences : c.references.find? (!isQualifiedName ·) = none :=
      List.find?_eq_none.mpr fun ns hns => by simp [h.references ns hns]
    have hnames : (c.sources.templates.keys.any fun name => (trim name).isEmpty) = false := by
      rw [List.any_eq_false]
      exact fun name hname => by
        simp [(isEmpty_trim_eq_false_iff name).mpr (h.names name hname)]
    rw [complaint?, himports, hreferences, hpattern, h.ns, hbase, hnames]
    rfl

theorem validate_eq_ok_iff {c' : Config} : c.validate = .ok c' ↔ c.Valid ∧ c = c' := by
  rw [validate, ← complaint?_eq_none_iff]
  split
  case h_1 reason hreason => simp [hreason]
  case h_2 hnone => simp [hnone]

end Config

namespace Generation

variable {g : Generation} {model : Option TypeName} {body : String}

/-- The text of a composed template survives being written and read. -/
theorem decoded_compose (g : Generation) (model : Option TypeName) (body : String) :
    (Content.text (g.compose model body)).decoded = .ok (g.compose model body) := by
  have hhead : (g.compose model body).toList.head? ≠ some '\uFEFF' := by
    rw [toList_compose, directives_eq]
    simp [Directive.text]
  rw [Content.decoded, Content.bytes]
  show (Utf8.decodeMarked _).mapError _ = _
  rw [Utf8.decodeMarked_encode hhead]
  rfl

end Generation

namespace Config

variable {c c' : Config} {t : InlineTemplate} {module : String}

/-- The source of a template in a configuration. -/
def composed (c : Config) (t : InlineTemplate) : String := c.generation.compose t.model t.body

/-- The manifest that a template in a configuration is meant to have. -/
def manifest (c : Config) (t : InlineTemplate) (module : String) : Manifest where
  module := module
  ns := c.generation.ns
  inherits := trim (c.generation.parent t.model)
  imports := (c.generation.namespaces t.model).eraseDups
  origin := .text
  body := t.body

section Plain

variable (hc : c.Valid) (hline : '\n' ∉ c.generation.baseType.toList)
  (hmodel : ∀ model ∈ t.model, model.Spelled) (hplain : Plain t.body.toList)

include hc hline hmodel hplain

/-- The leading block of a composed source is what was composed. -/
theorem block_composed : block (c.composed t).toList = c.generation.lines t.model := by
  rw [composed, block_prepend (Generation.spells_lines hc.baseType hc.imports hmodel)
    (Generation.linesList_compose hline hc.imports hmodel t.body), hplain.block_eq, List.append_nil]

theorem ofText_composed : Markup.ofText (c.composed t).toList =
    .ok ⟨some (trim (c.generation.parent t.model)),
      (c.generation.namespaces t.model).eraseDups, t.body.toList,
      (c.generation.directives t.model).length⟩ := by
  have hmarkup := Generation.ofText_compose_eq_ok hline hc.baseType hc.imports hmodel
    hplain.ofText_eq
  rw [List.append_nil] at hmarkup
  exact hmarkup

theorem translate_composed (module : String) :
    translate c.generation module (.text (c.composed t)) =
    match readBody (c.generation.directives t.model).length t.body with
    | .ok _ => .ok (c.manifest t module)
    | .error d => .error [d] := by
  have hdecoded : (Content.text (c.composed t)).decoded = .ok (c.composed t) :=
    Generation.decoded_compose c.generation t.model t.body
  rw [translate_of_ofText hdecoded (ofText_composed hc hline hmodel hplain)]
  simp only [Markup.manifest, manifest, String.ofList_toList, Option.getD_some]
  cases readBody (c.generation.directives t.model).length t.body <;> rfl

theorem writable_manifest (hmodule : Inline module) : (c.manifest t module).Writable := by
  refine Manifest.writable_iff.mpr ⟨hmodule, inline_of_isQualifiedName hc.ns, ?_⟩
  obtain ⟨htype, himports, -⟩ := inline_of_ofText (ofText_composed hc hline hmodel hplain)
  exact ⟨htype _ rfl, himports⟩

end Plain

/-- The body of a template in a valid configuration reaches the module as it is, and starts right
below the directives put before it. Nothing can be wrong with the template but its body, where it
cannot be read, and the namespaces that are not found. -/
theorem inline_template_kept (hvalid : c.validate = .ok c')
    (hline : '\n' ∉ c.generation.baseType.toList)
    (hmodels : ∀ name t, c.sources.templates.get? name = some t → ∀ model ∈ t.model, model.Spelled)
    {name : String} (ht : c.sources.templates.get? name = some t) (hplain : Plain t.body.toList)
    (hmodule : Inline module) :
    block (c.composed t).toList = c.generation.lines t.model ∧
    Markup.ofText (c.composed t).toList = .ok ⟨some (c.manifest t module).inherits,
      (c.manifest t module).imports, t.body.toList, (c.generation.lines t.model).length⟩ ∧
    (∀ f, Template.parse t.body = .error f →
      translate c.generation module (.text (c.composed t)) = .error [{
        Diagnostic.error Diagnostic.unreadableBody f.message with
        place := f.position?.map fun p =>
          ⟨p.line + (c.generation.lines t.model).length, some p.column⟩ }]) ∧
    ∀ nodes, Template.parse t.body = .ok nodes →
      translate c.generation module (.text (c.composed t)) = .ok (c.manifest t module) ∧
      ((∀ ns ∈ (c.manifest t module).imports, ns ∈ c.references ∨ ns = c.generation.ns) →
        compile c.references module (c.manifest t module).code = .ok (c.manifest t module)) ∧
      (¬(∀ ns ∈ (c.manifest t module).imports, ns ∈ c.references ∨ ns = c.generation.ns) →
        compile c.references module (c.manifest t module).code = .error
          ⟨module, (c.manifest t module).unresolved c.references, (c.manifest t module).code⟩) := by
  obtain ⟨hc, rfl⟩ := validate_eq_ok_iff.mp hvalid
  have hmodel := hmodels name t ht
  have hlength : (c.generation.lines t.model).length = (c.generation.directives t.model).length :=
    List.length_map _
  have htranslate := translate_composed hc hline hmodel hplain module
  have hwritable := writable_manifest hc hline hmodel hplain hmodule
  rw [hlength]
  refine ⟨block_composed hc hline hmodel hplain, ofText_composed hc hline hmodel hplain,
    fun f hf => ?_, fun nodes hnodes => ⟨?_, ?_, ?_⟩⟩
  · rw [htranslate, readBody, hf]
    rfl
  · rw [htranslate, readBody, hnodes]
    rfl
  · exact compile_resolved hwritable hnodes
  · exact compile_unresolved hwritable hnodes

/-- A type to inherit from that is cut by a line feed is valid, and what stands after the line feed
becomes part of the body. -/
theorem inline_template_joined :
    let c : Config := {
      generation := { baseType := "A\nB" }
      sources := { templates := Table.insert {} "/t.hbs" ⟨"x", none⟩ } }
    c.validate = .ok c ∧ c.sources.templates.get? "/t.hbs" = some ⟨"x", none⟩ ∧
      Plain "x".toList ∧
      (translate c.generation "View_1" (.text (c.composed ⟨"x", none⟩))).map Manifest.body =
        .ok "B\nx" := by
  intro c
  refine ⟨validate_eq_ok_iff.mpr ⟨complaint?_eq_none_iff.mp (by decide +kernel), rfl⟩, ?_, ?_, ?_⟩
  · rfl
  · decide +kernel
  · decide +kernel

theorem inline_template_kept_order :
    let t : InlineTemplate := ⟨"\n---\r\n@using", some ⟨some "Shop.Models", "Order"⟩⟩
    let c : Config := {
      generation := { baseType := " App.ViewBase", imports := ["App.Shared"] }
      sources := { templates := Table.insert {} "/t.hbs" t }
      references := ["App.Shared"] }
    c.validate = .ok c ∧ '\n' ∉ c.generation.baseType.toList ∧
      (∀ name t, c.sources.templates.get? name = some t → ∀ model ∈ t.model, model.Spelled) ∧
      c.sources.templates.get? "/t.hbs" = some t ∧ Plain t.body.toList ∧ Inline "View_1" ∧
      translate c.generation "View_1" (.text (c.composed t)) = .ok (c.manifest t "View_1") ∧
      compile c.references "View_1" (c.manifest t "View_1").code = .error ⟨"View_1",
        [.errorAtLine "STC0246" "the namespace 'Shop.Models' could not be found" 4],
        (c.manifest t "View_1").code⟩ := by
  intro t c
  have hvalid : c.validate = .ok c :=
    validate_eq_ok_iff.mpr ⟨complaint?_eq_none_iff.mp (by decide +kernel), rfl⟩
  have hline : '\n' ∉ c.generation.baseType.toList := by decide
  have hmodels : ∀ name t, c.sources.templates.get? name = some t →
      ∀ model ∈ t.model, model.Spelled := by
    intro name t' ht' model hmodel
    rw [show c.sources.templates = Table.insert {} "/t.hbs" t from rfl, Table.get?_insert] at ht'
    split at ht'
    · cases ht'
      cases hmodel
      exact ⟨"Shop.Models.Order", by decide +kernel⟩
    · cases ht'
  have ht : c.sources.templates.get? "/t.hbs" = some t := Table.get?_insert_self ..
  have hplain : Plain t.body.toList := by decide +kernel
  have hmodule : Inline "View_1" := inline_of_isQualifiedName (by decide)
  obtain ⟨nodes, hnodes⟩ : ∃ nodes, Template.parse t.body = .ok nodes := by
    have hok : (Template.parse t.body).isOk = true := by decide +kernel
    cases hparse : Template.parse t.body with
    | ok nodes => exact ⟨nodes, rfl⟩
    | error f => rw [hparse] at hok; cases hok
  obtain ⟨-, -, -, hkept⟩ := inline_template_kept hvalid hline hmodels ht hplain hmodule
  obtain ⟨htranslate, -, hlost⟩ := hkept nodes hnodes
  exact ⟨hvalid, hline, hmodels, ht, hplain, hmodule, htranslate, hlost (by decide +kernel)⟩

end Config

end CompiledViews
