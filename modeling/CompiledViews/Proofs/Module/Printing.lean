import CompiledViews.Proofs.Config.Templates
import CompiledViews.Proofs.Module.Loading
import CompiledViews.Proofs.Source.Registration
import CompiledViews.Proofs.Template.Rendering
import CompiledViews.View.Workshop

/-!
From the content of a template to the text that it prints. A template without directives goes
through all stages as it is: what it prints is its text, with the texts of the fields in between.
-/

namespace CompiledViews

open Text Template

/-- A content goes through all stages under the name of a module, and what is loaded prints a text
for a model. -/
def Content.Prints (c : Content) (tools : Toolchain) (module : String) (model : Json)
    (text : String) : Prop :=
  ∀ host, ∃ code image v host', tools.translate module c = .ok code ∧
    tools.compile module code = .ok image ∧ tools.load host image = .ok (v, host') ∧
    v.render model = .ok text

variable {g : Generation} {references : List String} {module : String} {c : Content}

/-- A content whose body can be read and whose namespaces are found prints what its body prints. -/
lemma Content.prints_of_ofText (hmodule : Inline module) (hns : Inline g.ns)
    (hbase : Inline g.baseType) {text : String} {markup : Markup} {nodes : List Node}
    (hdecoded : c.decoded = .ok text) (hmarkup : Markup.ofText text.toList = .ok markup)
    (hbody : Template.parse (String.ofList markup.body) = .ok nodes)
    (hfound : ∀ ns ∈ markup.imports, ns ∈ references ∨ ns = g.ns) {model : Json} {printed : String}
    (hrender : Template.render module nodes model = .ok printed) :
    c.Prints (.standard g references) module model printed := by
  intro host
  obtain ⟨m, hm⟩ : ∃ m, markup.manifest g module c.origin = m := ⟨_, rfl⟩
  have hwritable : m.Writable := hm ▸ Markup.writable_manifest hmodule hns hbase hmarkup c.origin
  have hname : m.module = module := hm ▸ rfl
  have hparse : Template.parse m.body = .ok nodes := hm ▸ hbody
  have hread : readBody markup.offset (String.ofList markup.body) = .ok nodes :=
    readBody_eq_ok_iff.mpr hbody
  have htranslate : translate g module c = .ok m := by
    rw [translate_of_ofText hdecoded hmarkup, hread, hm]
  have hcompile : compile references module m.code = .ok m := by
    rw [← hname]
    exact compile_resolved hwritable hparse (hm ▸ hfound)
  refine ⟨m.code, m.image, m.loaded nodes, _, ?_, ?_, load_image hparse host, ?_⟩
  · simp only [Toolchain.standard, htranslate, Except.map, Except.mapError]
  · simp only [Toolchain.standard, hcompile, Except.map]
  · have hrendered : Template.render (m.loaded nodes).name (m.loaded nodes).nodes model =
        .ok printed := by
      rw [← hname] at hrender
      exact hrender
    rw [Module.render_of_not_released rfl, hrendered]
    rfl

/-- Text and fields come out of all stages as they are, whether a template is read from somewhere or
is composed in memory. -/
theorem Content.prints_filled (t : Interpolation) (g : Generation) (references : List String)
    (module : String) (hmodule : Inline module) (hns : Inline g.ns) (hbase : Inline g.baseType)
    (hmark : t.text.head? ≠ some '\uFEFF') (hplain : Markup.Plain t.text)
    (fields : List (String × Json)) (hfields : HasTexts fields t.rest) :
    let tools := Toolchain.standard g references
    (∀ c : Content, c.bytes = .ok (Utf8.encode (String.ofList t.text)) →
      c.Prints tools module (.obj fields) (t.filled (fieldText fields))) ∧
    ((∀ ns ∈ g.imports, isQualifiedName ns = true) →
      (∀ ns ∈ g.imports, ns ∈ references ∨ ns = g.ns) →
      ∀ (catalogue : Catalogue) (name : String) (files : FileTree), ∃ source c,
        (catalogue.addInline g name { body := String.ofList t.text }).registry.lookup name =
          some source ∧
        source.open_ files = .ok c ∧
        c.Prints tools module (.obj fields) (t.filled (fieldText fields))) := by
  have hrender := t.render_nodes module hfields
  constructor
  · intro c hbytes
    have hdecoded : c.decoded = .ok (String.ofList t.text) := by
      have hread := Utf8.decodeMarked_encode (s := String.ofList t.text) (by simpa using hmark)
      simp only [Content.decoded, hbytes, hread, Except.mapError]
    have hmarkup : Markup.ofText (String.ofList t.text).toList = .ok ⟨none, [], t.text, 0⟩ := by
      rw [String.toList_ofList]
      exact hplain.ofText_eq
    exact prints_of_ofText hmodule hns hbase hdecoded hmarkup t.parse_text (by simp) hrender
  · intro himports hfound catalogue name files
    let composed := g.compose none (String.ofList t.text)
    have hmarkup : Markup.ofText composed.toList = .ok ⟨some (trim g.baseType),
        (g.namespaces none ++ []).eraseDups, t.text, (g.directives none).length + 0⟩ :=
      Generation.ofText_compose_eq_ok hbase.oneLine hbase.exists_not_blank himports (by simp)
        (by rw [String.toList_ofList]; exact hplain.ofText_eq)
    refine ⟨⟨Path.normalizeLogical name, .memory composed⟩, .text composed, ?_, rfl, ?_⟩
    · rw [Catalogue.addInline, Catalogue.register, Registry.lookup_register]
      exact if_pos (Path.normalizeLogical_normalizeLogical name).symm
    · refine prints_of_ofText hmodule hns hbase (Generation.decoded_compose ..) hmarkup
        t.parse_text ?_ hrender
      simpa [Generation.namespaces] using hfound

/-- A letter to somebody, with a note if there is one. -/
def Template.Interpolation.letter : Interpolation where
  front := "Dear ".toList
  rest := [
    ({ name := "name"
       isFieldName := ⟨by decide, List.all_eq_true.mp (by decide), by decide, by decide, rfl⟩ },
      ",\n\n".toList),
    ({ name := "note"
       braces := .three
       before := [' ']
       after := ['\t']
       isFieldName := ⟨by decide, List.all_eq_true.mp (by decide), by decide, by decide, rfl⟩
       before_blank := List.all_eq_true.mp (by decide)
       after_blank := List.all_eq_true.mp (by decide) },
      "<br>\n".toList)]
  front_isText := by simp [IsText]
  rest_isText := by simp [IsText]

theorem Content.prints_filled_letter :
    let g : Generation :=
      { ns := "App.Views", baseType := "App.ViewBase", imports := ["App.Shared"] }
    let tools := Toolchain.standard g ["App.Shared"]
    let text := "Dear \x7b\x7bname\x7d\x7d,\n\n\x7b\x7b\x7b note\t\x7d\x7d\x7d<br>\n"
    let model : Json := .obj [("name", .str "<Ann> & \"co\"")]
    let printed := "Dear <Ann> & \"co\",\n\n<br>\n"
    Inline "Views.Letter" ∧ Inline g.ns ∧ Inline g.baseType ∧
      text.toList.head? ≠ some '\uFEFF' ∧ Markup.Plain text.toList ∧
      (∀ ns ∈ g.imports, isQualifiedName ns = true) ∧
      (∀ ns ∈ g.imports, ns ∈ ["App.Shared"] ∨ ns = g.ns) ∧
      (Content.stream (Utf8.encode text) none).Prints tools "Views.Letter" model printed ∧
      ∃ (source : Source) (c : Content),
        (({} : Catalogue).addInline g "letter" { body := text }).registry.lookup "letter" =
          some source ∧
        source.open_ .empty = .ok c ∧ c.Prints tools "Views.Letter" model printed := by
  intro g tools text model printed
  have hmodule : Inline "Views.Letter" := inline_of_isQualifiedName (by decide)
  have hns : Inline g.ns := inline_of_isQualifiedName (by decide)
  have hbase : Inline g.baseType := inline_of_isQualifiedName (by decide)
  have htext : String.ofList Interpolation.letter.text = text := by decide
  have hmark : Interpolation.letter.text.head? ≠ some '\uFEFF' := by decide
  have hplain : Markup.Plain Interpolation.letter.text := by decide
  have himports : ∀ ns ∈ g.imports, isQualifiedName ns = true := by decide
  have hfound : ∀ ns ∈ g.imports, ns ∈ ["App.Shared"] ∨ ns = g.ns := by decide
  have hfields : HasTexts [("name", .str "<Ann> & \"co\"")] Interpolation.letter.rest := by
    rw [HasTexts, Interpolation.letter]
    simp [Json.field?]
  have hprinted : Interpolation.letter.filled (fieldText [("name", .str "<Ann> & \"co\"")]) =
      printed := by decide
  obtain ⟨hstream, hmemory⟩ := Content.prints_filled .letter g ["App.Shared"] "Views.Letter"
    hmodule hns hbase hmark hplain _ hfields
  rw [htext, hprinted] at hmemory
  rw [hprinted] at hstream
  have hletter : Interpolation.letter.text = text.toList := by rw [← htext, String.toList_ofList]
  exact ⟨hmodule, hns, hbase, hletter ▸ hmark, hletter ▸ hplain, himports, hfound,
    hstream _ (by rw [htext]; rfl), hmemory himports hfound {} "letter" .empty⟩

end CompiledViews
