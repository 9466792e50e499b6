import CompiledViews.Module.Basic

/-! Views: templates compiled into modules. -/

namespace CompiledViews

structure View where
  path : String
  ns : String
  module : Module
  released : Bool := false
  deriving Repr

namespace View

/-- The full name of the type of a view. -/
def typeName (v : View) : String := s!"{v.ns}.{v.module.name}"

def render (v : View) (model : Json) : Except RenderError String := v.module.render model

/-- The first release of a view asks for that of its module; a later one does nothing. -/
def release (v : View) : View :=
  if v.released then v else { v with released := true, module := v.module.release }

@[simp] theorem released_release (v : View) : v.release.released = true := by
  unfold release
  split <;> simp [*]

/-- The state of a view in one line. -/
def describe (v : View) : String :=
  s!"CompiledView \x7b path: {Text.quote v.path}, type_name: {Text.quote v.typeName}, " ++
    s!"released: {v.released} \x7d"

end View

end CompiledViews
