import CompiledViews.Environment.Basic
import CompiledViews.Text.Blank
import CompiledViews.Text.Letters

/-!
Lines of a file of variables. A line assigns a value to a name, says nothing, or is refused. In a
value, single quotes keep all as it is, double quotes keep blanks, a backslash escapes, and a dollar
sign puts in the value of a variable.
-/

namespace CompiledViews.Environment

/-- What reading a value is in the middle of. -/
inductive ValueMode where
  | plain
  | single
  | escape
  | trailing
  | comment
  | name (reversed : List Char)
  | braced (reversed : List Char)
  deriving Repr, DecidableEq

/-- `quoted` says that double quotes are open; `out` is the value so far, reversed. -/
structure ValueState where
  mode : ValueMode := .plain
  quoted : Bool := false
  out : List Char := []
  deriving Repr, DecidableEq

namespace ValueState

def push (s : ValueState) (c : Char) : ValueState := { s with out := c :: s.out }

/-- Puts in the value of the variable whose name has been read, reversed. -/
def insert (s : ValueState) (lookup : String → String) (name : List Char) : ValueState :=
  { s with mode := .plain, out := (lookup (String.ofList name.reverse)).toList.reverse ++ s.out }

def isEscapable (c : Char) : Bool := c = '\\' || c = '\'' || c = '"' || c = '$' || c = ' '

/-- Takes in a character; none if it is refused. -/
def step (lookup : String → String) (s : ValueState) (c : Char) : Option ValueState :=
  match s.mode with
  | .comment => some s
  | .trailing =>
    if c = ' ' || c = '\t' then some s
    else if c = '#' then some { s with mode := .comment }
    else none
  | .escape =>
    let s := { s with mode := .plain }
    if isEscapable c then some (s.push c)
    else if c = 'n' then some (s.push '\n')
    else none
  | .single => some (if c = '\'' then { s with mode := .plain } else s.push c)
  | .name cs =>
    if Text.isLetterOrNumber c then some { s with mode := .name (c :: cs) }
    else if c = '\x7b' && cs.isEmpty then some { s with mode := .braced [] }
    else if c = '$' then some { s.insert lookup cs with mode := .name [] }
    else some ((s.insert lookup cs).push c)
  | .braced cs =>
    if c = '\x7d' then some (s.insert lookup cs) else some { s with mode := .braced (c :: cs) }
  | .plain =>
    if c = '$' then some { s with mode := .name [] }
    else if c = '\\' then some { s with mode := .escape }
    else if c = '"' then some { s with quoted := !s.quoted }
    else if s.quoted then some (s.push c)
    else if c = '\'' then some { s with mode := .single }
    else if c = ' ' || c = '\t' then some { s with mode := .trailing }
    else some (s.push c)

/-- The value, unless quotes or braces are open. -/
def finish (lookup : String → String) (s : ValueState) : Option String :=
  if s.quoted then none
  else match s.mode with
    | .single | .braced _ => none
    | .name cs => some (String.ofList (s.insert lookup cs).out.reverse)
    | _ => some (String.ofList s.out.reverse)

end ValueState

/-- The value that a text stands for. -/
def readValue? (lookup : String → String) (cs : List Char) : Option String :=
  (cs.foldlM (ValueState.step lookup) { }).bind (ValueState.finish lookup)

/-- The name at the front of a text. -/
def readName? : List Char → Option (List Char × List Char)
  | c :: cs =>
    if c.isAlpha || c = '_' then
      let isPart (c : Char) : Bool := c.isAlphanum || c = '_' || c = '.'
      some (c :: cs.takeWhile isPart, cs.dropWhile isPart)
    else none
  | [] => none

/-- The rest after an equals sign. -/
def afterEquals? : List Char → Option (List Char)
  | '=' :: cs => some cs
  | _ => none

/-- The name that a line assigns to, with the text of the value. The word `export` may stand
before the name. -/
def readTarget? (cs : List Char) : Option (List Char × List Char) := do
  let (name, rest) ← readName? cs
  let rest := Text.trimStartList rest
  match afterEquals? rest with
  | some value => return (name, value)
  | none =>
    if name ≠ "export".toList then failure
    let (name, rest) ← readName? rest
    return (name, ← afterEquals? (Text.trimStartList rest))

/-- Reads a line: an assignment, nothing, or the text that is refused. -/
def readAssignment (lookup : String → String) (line : List Char) :
    Except (List Char) (Option (String × String)) :=
  let cs := Text.trimList line
  if cs.isEmpty || cs.head? = some '#' then .ok none
  else match readTarget? cs with
    | none => .error line
    | some (name, value) =>
      let value := Text.trimStartList value
      if value.isEmpty || value.head? = some '#' then .ok (some (String.ofList name, ""))
      else match readValue? lookup value with
        | some v => .ok (some (String.ofList name, v))
        | none => .error value

end CompiledViews.Environment
