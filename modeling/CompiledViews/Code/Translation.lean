import CompiledViews.Code.Basic
import CompiledViews.Directive.Block
import CompiledViews.Directive.Compose
import CompiledViews.Source.Content
import CompiledViews.Template.Tree

/-! From the content of a template to the manifest of its module. -/

namespace CompiledViews

/-- The tree of a body that starts below `offset` lines, or what is wrong with it. -/
def readBody (offset : Nat) (body : String) : Except Diagnostic (List Template.Node) :=
  (Template.parse body).mapError fun f =>
    { Diagnostic.error Diagnostic.unreadableBody f.message with
      place := f.position?.map fun p => ⟨p.line + offset, some p.column⟩ }

/-- The text of a template's content. -/
def Content.decoded (c : Content) : Except Diagnostic String :=
  match c.bytes with
  | .error reason => .error (.error Diagnostic.brokenSource s!"failed to read template: {reason}")
  | .ok bytes =>
    (Text.Utf8.decodeMarked bytes).mapError fun f =>
      .error Diagnostic.undecodable s!"template is not valid UTF-8: {f.message}"

def Content.origin (c : Content) : Origin := if c.isStream then .stream else .text

/-- The manifest of the module that a template makes. -/
def translate (g : Generation) (module : String) (c : Content) :
    Except (List Diagnostic) Manifest := do
  let text ← c.decoded.mapError ([·])
  let markup ← Markup.ofText text.toList
  let body := String.ofList markup.body
  let _ ← (readBody markup.offset body).mapError ([·])
  return {
    module := module
    ns := g.ns
    inherits := markup.inherits.getD g.baseType
    imports := markup.imports
    origin := c.origin
    body := body }

end CompiledViews
