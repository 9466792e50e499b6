import CompiledViews.Naming

/-! Directives are lines at the top of a template that name the type it inherits from and the
namespaces it uses. -/

namespace CompiledViews

inductive Directive where
  | inherits (type : String)
  | uses (ns : String)
  deriving Repr, DecidableEq

namespace Directive

/-- The words after the mark of a directive. -/
inductive Keyword where
  | inherits
  | uses
  deriving Repr, DecidableEq

def Keyword.text : Keyword → String
  | .inherits => "inherits"
  | .uses => "using"

inductive Fault where
  | unknown (keyword : String)
  | missingArgument (keyword : Keyword)
  | invalidNamespace (ns : String)
  deriving Repr, DecidableEq

def Fault.message : Fault → String
  | .unknown keyword => s!"unknown directive '@{keyword}'"
  | .missingArgument keyword => s!"'@{keyword.text}' requires an argument"
  | .invalidNamespace ns => s!"'{ns}' is not a valid namespace"

def text : Directive → String
  | .inherits type => "@inherits " ++ type
  | .uses ns => "@using " ++ ns

/-- A line in the shape of a directive: the keyword and the argument, without the blanks around
it. -/
def shape? (line : List Char) : Option (List Char × List Char) :=
  match Text.trimList line with
  | '@' :: rest =>
    let keyword := rest.takeWhile Char.isAlpha
    let argument := rest.dropWhile Char.isAlpha
    if keyword.isEmpty then none
    else if argument.head?.any fun c => !Text.isBlank c then none
    else some (keyword, Text.trimList argument)
  | _ => none

/-- The directive that a keyword and an argument make. -/
def ofShape (keyword argument : List Char) : Except Fault Directive :=
  if keyword = "inherits".toList then
    if argument.isEmpty then .error (.missingArgument .inherits)
    else .ok (.inherits (String.ofList argument))
  else if keyword = "using".toList then
    if argument.isEmpty then .error (.missingArgument .uses)
    else if isQualifiedName (String.ofList argument) then .ok (.uses (String.ofList argument))
    else .error (.invalidNamespace (String.ofList argument))
  else .error (.unknown (String.ofList keyword))

/-- Reads a line. A line in another shape is none of the directives' business. -/
def ofLine? (line : List Char) : Option (Except Fault Directive) :=
  (shape? line).map fun (keyword, argument) => ofShape keyword argument

end Directive

end CompiledViews
