import CompiledViews.Text.Blank

/-! Dotted names, as they stand for namespaces and types. -/

namespace CompiledViews

namespace Naming

def isStart (c : Char) : Bool := c.isAlpha || c = '_'

def isPart (c : Char) : Bool := c.isAlphanum || c = '_'

/-- Reads a dotted name; `fresh` says that a segment has yet to start. -/
def scan (fresh : Bool) : List Char → Bool
  | [] => !fresh
  | c :: cs =>
    if fresh then isStart c && scan false cs
    else if c = '.' then scan true cs
    else isPart c && scan false cs

end Naming

/-- Whether a text is one or more identifiers joined by dots. -/
def isQualifiedName (s : String) : Bool := Naming.scan true s.toList

/-- The name of a type, with its namespace if it is qualified. -/
structure TypeName where
  ns : Option String
  name : String
  deriving Repr, DecidableEq

namespace TypeName

/-- Cuts a name at its last dot. -/
def cut (cs : List Char) : TypeName :=
  let name := (cs.reverse.takeWhile (· ≠ '.')).reverse
  match cs.reverse.dropWhile (· ≠ '.') with
  | [] => ⟨none, String.ofList name⟩
  | _ :: front => ⟨some (String.ofList front.reverse), String.ofList name⟩

/-- Reads the name of a type, with or without blanks around it. -/
def ofText? (s : String) : Option TypeName :=
  let s := Text.trim s
  if isQualifiedName s then some (cut s.toList) else none

def text (t : TypeName) : String :=
  match t.ns with
  | some ns => ns ++ "." ++ t.name
  | none => t.name

/-- What is said of a text that names no type. -/
def invalidMessage (s : String) : String := s!"invalid type name '{Text.trim s}'"

example : ofText? " A.B.C " = some ⟨some "A.B", "C"⟩ := by decide +kernel

end TypeName

end CompiledViews
