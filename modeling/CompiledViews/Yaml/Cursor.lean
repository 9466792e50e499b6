/-! A place in a YAML text. -/

namespace CompiledViews.Yaml

/-- The characters ahead, with the line, the column and the index of the first, all from zero. -/
structure Cursor where
  rest : List Char
  line : Nat := 0
  column : Nat := 0
  index : Nat := 0
  deriving Repr

def isBreak (c : Char) : Bool :=
  c = '\n' || c = '\r' || c = '\x85' || c = '\u2028' || c = '\u2029'

def isBlank (c : Char) : Bool := c = ' ' || c = '\t'

/-- What may stand in the name of an anchor or of a handle. -/
def isWord (c : Char) : Bool := c.isAlphanum || c = '_' || c = '-'

namespace Cursor

def char? (c : Cursor) (n : Nat := 0) : Option Char := c.rest[n]?

def sees (c : Cursor) (x : Char) (n : Nat := 0) : Bool := c.char? n = some x

/-- Whether the `n`-th character ahead ends a word: a blank, a break, or the end. -/
def endsAt (c : Cursor) (n : Nat := 0) : Bool :=
  ((c.char? n).map fun x => isBlank x || isBreak x).getD true

/-- Whether the line ends here. -/
def atLineEnd (c : Cursor) : Bool := (c.char?.map isBreak).getD true

def seesBlank (c : Cursor) : Bool := (c.char?.map isBlank).getD false

def seesBreak (c : Cursor) (n : Nat := 0) : Bool := ((c.char? n).map isBreak).getD false

def atEnd (c : Cursor) : Bool := c.rest.isEmpty

/-- Passes some characters of a line. -/
def advance (c : Cursor) (n : Nat := 1) : Cursor :=
  { c with rest := c.rest.drop n, column := c.column + n, index := c.index + n }

/-- Passes a line break. -/
def nextLine (c : Cursor) : Cursor :=
  let n := if c.sees '\r' && c.sees '\n' 1 then 2 else 1
  ⟨c.rest.drop n, c.line + 1, 0, c.index + n⟩

/-- The text that a line break stands for. -/
def breakText (c : Cursor) : List Char :=
  match c.char? with
  | some '\u2028' => ['\u2028']
  | some '\u2029' => ['\u2029']
  | some x => if isBreak x then ['\n'] else []
  | none => []

/-- Passes the characters of the line that `p` picks. -/
def advanceWhile (c : Cursor) (p : Char → Bool) : Cursor :=
  c.advance (c.rest.takeWhile fun x => p x && !isBreak x).length

/-- Passes the rest of the line. -/
def skipLineText (c : Cursor) : Cursor := c.advanceWhile fun _ => true

/-- Whether a mark of three characters, alone, starts the line. -/
def seesDocumentMark (c : Cursor) : Bool :=
  c.column = 0 && c.endsAt 3 && (c.rest.take 3 = ['-', '-', '-'] || c.rest.take 3 = ['.', '.', '.'])

end Cursor

end CompiledViews.Yaml
