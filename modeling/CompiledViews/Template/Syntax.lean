import CompiledViews.Json.Basic

/-! The syntax of templates: paths, expressions, tags, and the tree of nodes that tags and text
make. -/

namespace CompiledViews.Template

/-- One step of a path: to the root of the model, to the variables of the block, one context up, or
to a field. -/
inductive Step where
  | root
  | variable
  | up
  | field (name : String)
  deriving Repr, DecidableEq

/-- A path together with its spelling. -/
structure Path where
  steps : List Step
  spelling : String
  deriving Repr, DecidableEq

/-- An argument or the name of a tag. `unreadable` is a literal that is no JSON value; a template
that holds one is refused. -/
inductive Expr where
  | word (name : String)
  | path (p : Path)
  | literal (value : Json)
  | unreadable (spelling : String)
  | call (name : Expr) (args : List Expr) (named : List (String × Expr))
  deriving Repr, Inhabited

/-- The names that a block gives to its value, and to its key or index. -/
structure Binder where
  value : String
  key : Option String
  deriving Repr, DecidableEq

/-- What stands in a tag: a name with its arguments. -/
structure Call where
  name : Expr
  args : List Expr := []
  named : List (String × Expr) := []
  binder : Option Binder := none
  deriving Repr, Inhabited

/-- What a tag does. -/
inductive Role where
  | value (call : Call)
  | openBlock (call : Call)
  | elseBlock (call : Option Call)
  | closeBlock (name : String)
  | openRaw (call : Call)
  | closeRaw (name : String)
  | comment
  | decorator (call : Call)
  | openDecorator (call : Call)
  | closeDecorator (name : String)
  | includePartial (call : Call)
  | openPartial (call : Call)
  | closePartial (name : String)
  deriving Repr, Inhabited

/-- A tag with the places of its first character and of the character after its last.
`trimsBefore` and `trimsAfter` tell whether it removes all blanks on that side. -/
structure Tag where
  start : Nat
  stop : Nat
  role : Role
  trimsBefore : Bool
  trimsAfter : Bool
  deriving Repr, Inhabited

/-- A line and a column, both from one. -/
structure Position where
  line : Nat
  column : Nat
  deriving Repr, DecidableEq

/-- The position of the `n`-th character of a text. -/
def Position.at (cs : List Char) (n : Nat) : Position :=
  let before := cs.take n
  ⟨before.count '\n' + 1, (before.reverse.takeWhile (· ≠ '\n')).length + 1⟩

/-- A piece of a template. A node without a position reports the position of the node around it. -/
inductive Node where
  | text (s : String)
  | value (position : Position) (call : Call)
  | block (position : Option Position) (call : Call) (body : List Node)
      (inverse : Option (List Node))
  | decorator (position : Position) (call : Call) (body : Option (List Node))
  | includePartial (position : Position) (call : Call) (body : Option (List Node))
      (indent : Option String)
  deriving Repr, Inhabited

/-- Where a name ends: a letter, digit or mark that may stand in one, or any character beyond
ASCII. -/
def isNameChar (c : Char) : Bool :=
  c.isAlphanum || c = '-' || c = '_' || c = '$' || c = ':' || 0x80 ≤ c.toNat

/-- The blanks that may stand between tokens. -/
def isSpace (c : Char) : Bool := c = ' ' || c = '\t' || c = '\r' || c = '\n'

end CompiledViews.Template
