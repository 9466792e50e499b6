import CompiledViews.Proofs.Code.Header
import CompiledViews.Proofs.Directive.Block
import CompiledViews.Proofs.Except

/-! From a template to its module by way of code. The code that a template is translated to is
compiled to what the template says; only a namespace that cannot be found stands in the way. -/

namespace CompiledViews

open Text Markup

variable {g : Generation} {module : String} {c : Content}

/-- The manifest of a module whose template is cut into the given parts. -/
def Markup.manifest (markup : Markup) (g : Generation) (module : String) (origin : Origin) :
    Manifest where
  module := module
  ns := g.ns
  inherits := markup.inherits.getD g.baseType
  imports := markup.imports
  origin := origin
  body := String.ofList markup.body

lemma readBody_eq_ok_iff {offset : Nat} {body : String} {nodes : List Template.Node} :
    readBody offset body = .ok nodes ↔ Template.parse body = .ok nodes :=
  Except.mapError_eq_ok_iff

/-- A template is translated when it is a text whose leading block has no faults and whose body can
be read. -/
theorem translate_eq_ok_iff {m : Manifest} :
    translate g module c = .ok m ↔
      ∃ text markup nodes, c.decoded = .ok text ∧ ofText text.toList = .ok markup ∧
        Template.parse (String.ofList markup.body) = .ok nodes ∧
        markup.manifest g module c.origin = m := by
  simp only [translate, Except.bind_eq_ok_iff, Except.mapError_eq_ok_iff, readBody_eq_ok_iff,
    pure, Except.pure, Except.ok.injEq, exists_and_left]
  rfl

/-- What stands in the header of a module can be written on lines, when the options and the name
of the module can. -/
theorem Markup.writable_manifest {text : List Char} {markup : Markup} (hmodule : Inline module)
    (hns : Inline g.ns) (hbase : Inline g.baseType) (hmarkup : ofText text = .ok markup)
    (origin : Origin) : (markup.manifest g module origin).Writable := by
  obtain ⟨hinherits, himports, -⟩ := inline_of_ofText hmarkup
  refine Manifest.writable_iff.mpr ⟨hmodule, hns, ?_, himports⟩
  show Inline (markup.inherits.getD g.baseType)
  cases htype : markup.inherits with
  | none => exact hbase
  | some type => exact hinherits type htype

/-- A template that is cut is translated if its body can be read; what is wrong with the body is
placed in the template. -/
theorem translate_of_ofText {text : String} {markup : Markup} (hdecoded : c.decoded = .ok text)
    (hmarkup : ofText text.toList = .ok markup) :
    translate g module c = match readBody markup.offset (String.ofList markup.body) with
      | .ok _ => .ok (markup.manifest g module c.origin)
      | .error d => .error [d] := by
  simp only [translate, hdecoded, hmarkup, Except.mapError, bind, Except.bind]
  cases readBody markup.offset (String.ofList markup.body) <;> rfl

section Compile

variable {m : Manifest} {nodes : List Template.Node} {references : List String}

/-- Code whose imports are all found is compiled to what it was made from. -/
theorem compile_resolved (h : m.Writable) (hbody : Template.parse m.body = .ok nodes)
    (hfound : ∀ ns ∈ m.imports, ns ∈ references ∨ ns = m.ns) :
    compile references m.module m.code = .ok m := by
  rw [compile, Manifest.read_code h hbody, (Manifest.unresolved_eq_nil_iff references).mpr hfound]
  rfl

theorem compile_unresolved (h : m.Writable) (hbody : Template.parse m.body = .ok nodes)
    (hlost : ¬∀ ns ∈ m.imports, ns ∈ references ∨ ns = m.ns) :
    compile references m.module m.code =
      .error ⟨m.module, m.unresolved references, m.code⟩ := by
  rw [compile, Manifest.read_code h hbody]
  split
  case h_1 hnil => exact absurd ((Manifest.unresolved_eq_nil_iff references).mp hnil) hlost
  case h_2 => rfl

end Compile

/-- Code made from a template is compiled to the parts of the template if the namespaces it uses are
found, and fails for those that are not, each on its own line. -/
theorem compile_translated (hmodule : Inline module) (hns : Inline g.ns)
    (hbase : Inline g.baseType) {code : String}
    (hcode : (translate g module c).map Manifest.code = .ok code) (references : List String) :
    ∃ text markup, c.decoded = .ok text ∧ ofText text.toList = .ok markup ∧
      markup.imports.Nodup ∧
      ((∀ ns ∈ markup.imports, ns ∈ references ∨ ns = g.ns) →
        compile references module code = .ok {
          module := module
          ns := g.ns
          inherits := markup.inherits.getD g.baseType
          imports := markup.imports
          origin := c.origin
          body := String.ofList markup.body }) ∧
      (¬(∀ ns ∈ markup.imports, ns ∈ references ∨ ns = g.ns) →
        compile references module code = .error {
          module := module
          diagnostics := (markup.imports.zipIdx 4).filterMap fun (ns, line) =>
            if ns ∈ references ∨ ns = g.ns then none
            else some (.errorAtLine Diagnostic.unresolvedImport
              s!"the namespace '{ns}' could not be found" line)
          code := code }) := by
  obtain ⟨m, htranslate, rfl⟩ := Except.map_eq_ok_iff.mp hcode
  obtain ⟨text, markup, nodes, hdecoded, hmarkup, hbody, rfl⟩ := translate_eq_ok_iff.mp htranslate
  have hwritable := writable_manifest hmodule hns hbase hmarkup c.origin
  exact ⟨text, markup, hdecoded, hmarkup, (inline_of_ofText hmarkup).2.2,
    compile_resolved hwritable hbody, compile_unresolved hwritable hbody⟩

theorem compile_translated_lost :
    let g : Generation := { ns := "App.Views", baseType := "App.ViewBase" }
    let c : Content := .text "@using App.Shared\r\n@using Lost\n---\n#module Other\r\nend"
    let code := "#module Views.Home\n#namespace App.Views\n#inherits App.ViewBase\n" ++
      "#import App.Shared\n#import Lost\n#origin text\n---\n---\n#module Other\r\nend"
    Inline "Views.Home" ∧ Inline g.ns ∧ Inline g.baseType ∧
      (translate g "Views.Home" c).map Manifest.code = .ok code ∧
      compile ["App.Shared"] "Views.Home" code = .error ⟨"Views.Home",
        [.errorAtLine "STC0246" "the namespace 'Lost' could not be found" 5], code⟩ := by
  intro g c code
  have hmodule : Inline "Views.Home" := inline_of_isQualifiedName (by decide)
  have hns : Inline g.ns := inline_of_isQualifiedName (by decide)
  have hbase : Inline g.baseType := inline_of_isQualifiedName (by decide)
  have hcode : (translate g "Views.Home" c).map Manifest.code = .ok code := by decide +kernel
  obtain ⟨text, markup, htext, hmarkup, -, -, hlost⟩ :=
    compile_translated hmodule hns hbase hcode ["App.Shared"]
  have hdecoded : c.decoded =
      .ok "@using App.Shared\r\n@using Lost\n---\n#module Other\r\nend" := by decide +kernel
  obtain rfl := Except.ok.inj (hdecoded.symm.trans htext)
  have hcut : ofText "@using App.Shared\r\n@using Lost\n---\n#module Other\r\nend".toList =
      .ok ⟨none, ["App.Shared", "Lost"], "---\n#module Other\r\nend".toList, 2⟩ := by
    decide +kernel
  obtain rfl := Except.ok.inj (hcut.symm.trans hmarkup)
  exact ⟨hmodule, hns, hbase, hcode, hlost (by decide)⟩

end CompiledViews
