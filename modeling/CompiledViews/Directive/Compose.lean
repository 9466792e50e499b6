import CompiledViews.Directive.Basic

/-! Composing a template in memory: directives, a line each, before a body. -/

namespace CompiledViews

/-- How code is generated: the namespace of the views, the type they inherit from, and the
namespaces that templates in memory use. -/
structure Generation where
  ns : String := "Stencil.Generated"
  baseType : String := "Stencil.ViewBase"
  imports : List String := []
  deriving Repr, DecidableEq

namespace Generation

/-- The directives of a template with the given model. -/
def directives (g : Generation) : Option TypeName → List Directive
  | some model =>
    .inherits (g.baseType ++ "<" ++ model.name ++ ">") ::
      (model.ns.map .uses).toList ++ g.imports.map .uses
  | none => .inherits g.baseType :: g.imports.map .uses

/-- The template that has the given body. -/
def compose (g : Generation) (model : Option TypeName) (body : String) : String :=
  String.join ((g.directives model).map fun d => d.text ++ "\n") ++ body

end Generation

end CompiledViews
