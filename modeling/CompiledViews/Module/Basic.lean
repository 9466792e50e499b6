import CompiledViews.Module.Image
import CompiledViews.Table
import CompiledViews.Template.Render

/-! Modules, which render views until they are released, and the host that keeps a record of each
module loaded. -/

namespace CompiledViews

/-- A module counts the requests to release it, of which it refuses the first few. -/
structure Module where
  name : String
  baseType : String
  imports : List String
  nodes : List Template.Node
  refusals : Nat := 0
  requests : Nat := 0
  deriving Repr

inductive RenderError where
  | template (text : String)
  | released (module : String)
  deriving Repr, DecidableEq

def RenderError.message : RenderError → String
  | .template text => s!"render failed: {text}"
  | .released module => s!"module {module} has been released"

inductive LoadError where
  | malformed (module detail : String)
  | notInitialized (module detail : String)
  deriving Repr, DecidableEq

def LoadError.message : LoadError → String
  | .malformed module detail => s!"malformed module image {module}: {detail}"
  | .notInitialized module detail => s!"module {module} could not be initialized: {detail}"

/-- A module that would not be released. -/
structure ReleaseError where
  module : String
  detail : String
  deriving Repr, DecidableEq

def ReleaseError.message (e : ReleaseError) : String :=
  s!"failed to release module {e.module}: {e.detail}"

/-- The text of a failed rendering. -/
def Template.Failure.text (module : String) (f : Template.Failure) : String :=
  match f.position with
  | some p => s!"Error rendering \"{module}\" line {p.line}, col {p.column}: {f.reason.message}"
  | none => f.reason.message

namespace Module

def released (m : Module) : Bool := decide (m.refusals < m.requests)

def render (m : Module) (model : Json) : Except RenderError String :=
  if m.released then .error (.released m.name)
  else (Template.render m.name m.nodes model).mapError fun f => .template (f.text m.name)

/-- Asks a module to release what it holds. -/
def release (m : Module) : Module := { m with requests := m.requests + 1 }

/-- The state of a module in one line. -/
def describe (m : Module) : String :=
  s!"ExecutableModule \x7b name: {Text.quote m.name}, base_type: {Text.quote m.baseType}, " ++
    s!"released: {m.released} \x7d"

end Module

/-- What a host remembers of a module. -/
structure HostRecord where
  ns : String
  baseType : String
  deriving Repr, DecidableEq

/-- The records of the modules loaded, each under the name of its module. -/
abbrev Host := Table HostRecord

/-- Builds the module of an image and records it. -/
def load (h : Host) (i : Image) : Except LoadError (Module × Host) :=
  let manifest := match Text.Utf8.decode i.bytes with
    | .ok text => Manifest.ofJson? text.toList
    | .error _ => none
  match manifest with
  | none => .error (.malformed i.module "")
  | some m =>
    if m.module ≠ i.module then
      .error (.malformed i.module s!"image contains module '{m.module}'")
    else match Template.parse m.body with
      | .error f => .error (.notInitialized m.module f.message)
      | .ok nodes => .ok ({ name := m.module, baseType := m.inherits, imports := m.imports, nodes := nodes },
          h.insert m.module ⟨m.ns, m.inherits⟩)

end CompiledViews
