import CompiledViews.Path.Lexical

/-! Logical paths name templates. They start with a slash and hold names only, whatever separators
and dots the spelling had. -/

namespace CompiledViews.Path

def isSeparator (c : Char) : Bool := c = '/' || c = '\\'

/-- Takes in one piece of a spelling; the names so far are reversed. -/
def stepLogical (names : List (List Char)) (piece : List Char) : List (List Char) :=
  if piece = [] ∨ piece = ['.'] then names
  else if piece = ['.', '.'] then names.tail
  else piece :: names

/-- The names in a spelling, in order. -/
def logicalNames (cs : List Char) : List (List Char) :=
  ((Text.splitList isSeparator cs).foldl stepLogical []).reverse

/-- The names, each after a slash; a slash alone if there is none. -/
def logicalText (names : List (List Char)) : List Char :=
  if names.isEmpty then ['/'] else names.flatMap ('/' :: ·)

/-- The canonical spelling of a template's name. -/
def normalizeLogical (name : String) : String :=
  String.ofList (logicalText (logicalNames name.toList))

/-- The logical path of a file below a directory. -/
def logicalPath? (root file : String) : Option String :=
  match stripComponents (components (normalize root)) (components (normalize file)) with
  | none | some [] => none
  | some rest => some (normalizeLogical ("/".intercalate (rest.map Component.text)))

end CompiledViews.Path
