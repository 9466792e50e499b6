/-! Generated code: a header of lines that begin with a hash mark, a line of three dashes, and the
body of the template. -/

namespace CompiledViews

/-- Where the text of a template came from. -/
inductive Origin where
  | stream
  | text
  deriving Repr, DecidableEq

def Origin.word : Origin → String
  | .stream => "stream"
  | .text => "text"

def Origin.ofWord? : String → Option Origin
  | "stream" => some .stream
  | "text" => some .text
  | _ => none

@[simp] theorem Origin.ofWord?_word (o : Origin) : Origin.ofWord? o.word = some o := by
  cases o <;> rfl

/-- All that a module is built from. -/
structure Manifest where
  module : String
  ns : String
  inherits : String
  imports : List String
  origin : Origin
  body : String
  deriving Repr, DecidableEq

namespace Manifest

/-- The lines of the header, without their line feeds. -/
def headerLines (m : Manifest) : List String :=
  ["#module " ++ m.module, "#namespace " ++ m.ns, "#inherits " ++ m.inherits] ++
    m.imports.map ("#import " ++ ·) ++ ["#origin " ++ m.origin.word]

/-- The manifest as code. -/
def code (m : Manifest) : String :=
  String.join ((m.headerLines ++ ["---"]).map (· ++ "\n")) ++ m.body

end Manifest

end CompiledViews
