import CompiledViews.Yaml.Scalar

/-!
The tokens of a YAML text. Blocks are told by indentation, so tokens for their starts and ends are
made where it changes. That something is a key is known only at the colon after it; until then it
and all that follows is held back.
-/

namespace CompiledViews.Yaml

inductive Style where
  | plain
  | quoted
  | literal
  | folded
  deriving Repr, DecidableEq

inductive Token.Kind where
  | textStart
  | textEnd
  | version (major minor : Nat)
  | tagHandle (handle expansion : String)
  | documentStart
  | documentEnd
  | blockSeqStart
  | blockMapStart
  | blockEnd
  | flowSeqStart
  | flowSeqEnd
  | flowMapStart
  | flowMapEnd
  | blockEntry
  | flowEntry
  | key
  | value
  | alias (name : String)
  | anchor (name : String)
  | tag (handle suffix : String)
  | scalar (text : String) (style : Style)
  | broken
  deriving Repr, DecidableEq

/-- A token with the lines of its start and its end. A broken one stands where no token could be
read. -/
structure Token where
  kind : Token.Kind
  line : Nat
  stop : Nat
  deriving Repr, DecidableEq

namespace Tokens

/-- What may turn out to be a key, by the number of its token and its place. -/
structure Key where
  required : Bool
  number : Nat
  line : Nat
  column : Nat
  index : Nat

/-- `keys` holds the possible key of each collection in brackets, the innermost first, and last
that of the blocks around them. -/
structure State where
  cursor : Cursor
  tokens : Array Token := #[]
  indent : Int := -1
  indents : List Int := []
  keyAllowed : Bool := true
  keys : List (Option Key) := [none]

namespace State

def inFlow (s : State) : Bool := 1 < s.keys.length

def mark (s : State) : Nat := s.cursor.line

def push (s : State) (kind : Token.Kind) (line stop : Nat) : State :=
  { s with tokens := s.tokens.push ⟨kind, line, stop⟩ }

/-- Adds a token that starts here, and passes its characters. -/
def take (s : State) (kind : Token.Kind) (n : Nat) : State :=
  { s.push kind s.mark s.mark with cursor := s.cursor.advance n }

def insert (s : State) (number : Nat) (kind : Token.Kind) (line : Nat) : State :=
  { s with tokens := s.tokens.toList.take number ++ ⟨kind, line, line⟩ ::
      s.tokens.toList.drop number |>.toArray }

/-- Whether a possible key can be one no more: it is on one line, and short. -/
def isStale (c : Cursor) (k : Key) : Bool := k.line < c.line || k.index + 1024 < c.index

/-- Gives up stale keys. A required one that is stale is an error. -/
def dropStale (s : State) : Except Nat State :=
  if s.keys.any fun k => (k.map fun k => k.required && isStale s.cursor k).getD false then
    .error s.mark
  else .ok { s with keys := s.keys.map fun k => k.filter fun k => !isStale s.cursor k }

/-- Gives up the key of the innermost collection. -/
def dropKey (s : State) : Except Nat State :=
  match s.keys with
  | some k :: keys => if k.required then .error s.mark else .ok { s with keys := none :: keys }
  | _ => .ok s

/-- Notes that the next token may be a key. -/
def saveKey (s : State) : Except Nat State :=
  if !s.keyAllowed then .ok s
  else do
    let s ← s.dropKey
    let c := s.cursor
    let required := !s.inFlow && s.indent = c.column
    return { s with keys := some ⟨required, s.tokens.size, c.line, c.column, c.index⟩ :: s.keys.tail }

def allow (s : State) (b : Bool) : State := { s with keyAllowed := b }

/-- Opens a block at a column, unless one is open there. -/
def openBlock (s : State) (column : Nat) (add : State → State) : State :=
  if s.inFlow || (column : Int) ≤ s.indent then s
  else { add s with indent := column, indents := s.indent :: s.indents }

/-- Closes the blocks that are indented more than `column`. -/
def closeBlocks (s : State) (column : Int) : State :=
  if s.inFlow then s else go s s.indents
where
  go (s : State) : List Int → State
    | [] => s
    | outer :: indents =>
      if column < s.indent then
        go { s.push .blockEnd s.mark s.mark with indent := outer, indents := indents } indents
      else s

/-- Passes blanks, comments and breaks. In a block a tab is no blank where a key may start. -/
def skipGap : Nat → State → State
  | 0, s => s
  | fuel + 1, s =>
    let tabs := s.inFlow || !s.keyAllowed
    let c := s.cursor.advanceWhile fun x => x = ' ' || (tabs && x = '\t')
    let c := if c.sees '#' then c.skipLineText else c
    if c.seesBreak then
      skipGap fuel { s with cursor := c.nextLine, keyAllowed := s.keyAllowed || !s.inFlow }
    else { s with cursor := c }

/-- Reads a number of at most nine digits. -/
def readVersionPart (c : Cursor) : Option (Nat × Cursor) :=
  let digits := c.rest.takeWhile Char.isDigit
  if digits.isEmpty || 9 < digits.length then none
  else some (digits.foldl (fun n d => n * 10 + (d.toNat - '0'.toNat)) 0, c.advance digits.length)

/-- Reads the handle of a tag: words between exclamation marks, or one mark alone. -/
def readHandle (directive : Bool) (c : Cursor) : Option (List Char × Cursor) :=
  if !c.sees '!' then none
  else
    let word := (c.rest.drop 1).takeWhile isWord
    let c' := c.advance (1 + word.length)
    if c'.sees '!' then some ('!' :: word ++ ['!'], c'.advance)
    else if directive && !word.isEmpty then none
    else some ('!' :: word, c')

def isUriChar (verbatim : Bool) (c : Char) : Bool :=
  isWord c || ";/?:@&=+$.!~*'()%".toList.contains c || (verbatim && (c = ',' || c = '[' || c = ']'))

/-- Whether each percent sign is followed by two hexadecimal digits. -/
def escapesAreWhole : List Char → Bool
  | '%' :: a :: b :: cs => (hexValue? a).isSome && (hexValue? b).isSome && escapesAreWhole cs
  | '%' :: _ => false
  | _ :: cs => escapesAreWhole cs
  | [] => true

/-- Reads the rest of a tag; `start` has been read of it. -/
def readUri (verbatim : Bool) (start : List Char) (c : Cursor) : Option (List Char × Cursor) :=
  let text := c.rest.takeWhile (isUriChar verbatim)
  if (start.isEmpty && text.isEmpty) || !escapesAreWhole text then none
  else some (start ++ text, c.advance text.length)

/-- Reads a directive after its percent sign. -/
def readDirective (c : Cursor) : Option (Token.Kind × Cursor) := do
  let name := c.rest.takeWhile isWord
  let c := c.advance name.length
  if name.isEmpty || !c.endsAt then failure
  let c := c.advanceWhile isBlank
  let (kind, c) ←
    if name = "YAML".toList then do
      let (major, c) ← readVersionPart c
      if !c.sees '.' then failure
      let (minor, c) ← readVersionPart c.advance
      pure (Token.Kind.version major minor, c)
    else if name = "TAG".toList then do
      let (handle, c) ← readHandle true c
      if !c.seesBlank then failure
      let (uri, c) ← readUri true [] (c.advanceWhile isBlank)
      if !c.endsAt then failure
      pure (Token.Kind.tagHandle (String.ofList handle) (String.ofList uri), c)
    else failure
  let c := c.advanceWhile isBlank
  let c := if c.sees '#' then c.skipLineText else c
  if !c.atLineEnd then failure
  return (kind, if c.seesBreak then c.nextLine else c)

/-- Reads the name of an anchor after its sign. -/
def readAnchor (c : Cursor) : Option (String × Cursor) :=
  let word := c.rest.takeWhile isWord
  let c := c.advance word.length
  let ended := c.endsAt || (c.char?.map fun x => "?:,]\x7d%@`".toList.contains x).getD false
  if word.isEmpty || !ended then none else some (String.ofList word, c)

/-- Reads a tag. -/
def readTag (flow : Bool) (c : Cursor) : Option (Token.Kind × Cursor) := do
  let (handle, suffix, c) ←
    if c.sees '<' 1 then do
      let (uri, c) ← readUri true [] (c.advance 2)
      if !c.sees '>' then failure
      pure ([], uri, c.advance)
    else do
      let (handle, c) ← readHandle false c
      if 1 < handle.length && handle.getLast? = some '!' then do
        let (uri, c) ← readUri false [] c
        pure (handle, uri, c)
      else do
        let rest := handle.drop 1
        let text := c.rest.takeWhile (isUriChar false)
        if !escapesAreWhole text then failure
        let c := c.advance text.length
        pure (if (rest ++ text).isEmpty then ([], ['!'], c) else (['!'], rest ++ text, c))
  if !(c.endsAt || (flow && c.sees ',')) then failure
  return (.tag (String.ofList handle) (String.ofList suffix), c)

/-- Adds a token that was read from here to `c`. -/
def read (s : State) (r : Option (Token.Kind × Cursor)) : Except Nat State :=
  match r with
  | none => .error s.mark
  | some (kind, c) => .ok { s.push kind s.mark c.line with cursor := c }

def addScalar (s : State) (style : Style) (text : List Char) (c : Cursor) : State :=
  { s.push (.scalar (String.ofList text) style) s.mark c.line with cursor := c }

def openFlow (s : State) (kind : Token.Kind) : Except Nat State := do
  let s ← s.saveKey
  return { (s.allow true).take kind 1 with keys := none :: s.keys }

def closeFlow (s : State) (kind : Token.Kind) : Except Nat State := do
  let s ← s.dropKey
  let keys := if s.inFlow then s.keys.tail else s.keys
  return { (s.allow false).take kind 1 with keys := keys }

/-- Adds the sign of an entry or of a key, which opens a block where there is none. -/
def openEntry (s : State) (start kind : Token.Kind) (thenAllowed : Bool) : Except Nat State := do
  if !s.inFlow && !s.keyAllowed then throw s.mark
  let s := s.openBlock s.cursor.column fun s => s.push start s.mark s.mark
  let s ← s.dropKey
  return (s.allow thenAllowed).take kind 1

/-- Adds the sign of a value. What may have been a key before it is one. -/
def addValue (s : State) : Except Nat State := do
  match s.keys with
  | some k :: keys =>
    let s := { s.insert k.number .key k.line with keys := none :: keys }
    let s := s.openBlock k.column fun s => s.insert k.number .blockMapStart k.line
    return (s.allow false).take .value 1
  | _ =>
    if !s.inFlow && !s.keyAllowed then throw s.mark
    let s := s.openBlock s.cursor.column fun s => s.push .blockMapStart s.mark s.mark
    return (s.allow !s.inFlow).take .value 1

def finish (s : State) : Except Nat State := do
  let c := s.cursor
  let c := if c.column = 0 then c else { c with column := 0, line := c.line + 1 }
  let s ← ({ s with cursor := c }.closeBlocks (-1)).dropKey
  return (s.allow false).push .textEnd s.mark s.mark

/-- Whether a plain scalar may start here. -/
def startsPlain (flow : Bool) (c : Cursor) (x : Char) : Bool :=
  (!c.endsAt && !"-?:,[]\x7b\x7d#&*!|>'\"%@`".toList.contains x) ||
    (x = '-' && !(c.char? 1 |>.map isBlank |>.getD false)) ||
    (!flow && (x = '?' || x = ':') && !c.endsAt 1)

/-- Reads the next token, with those that it brings along. -/
def next (s : State) : Except Nat State := do
  let s ← (skipGap (s.cursor.rest.length + 1) s).dropStale
  let s := s.closeBlocks s.cursor.column
  let c := s.cursor
  match c.char? with
  | none => s.finish
  | some x =>
    if c.column = 0 && x = '%' then
      let s ← (s.closeBlocks (-1)).dropKey
      (s.allow false).read (readDirective c.advance)
    else if c.seesDocumentMark then
      let s ← (s.closeBlocks (-1)).dropKey
      return (s.allow false).take (if x = '-' then .documentStart else .documentEnd) 3
    else if x = '[' then s.openFlow .flowSeqStart
    else if x = '\x7b' then s.openFlow .flowMapStart
    else if x = ']' then s.closeFlow .flowSeqEnd
    else if x = '\x7d' then s.closeFlow .flowMapEnd
    else if x = ',' then return ((← s.dropKey).allow true).take .flowEntry 1
    else if x = '-' && c.endsAt 1 then s.openEntry .blockSeqStart .blockEntry true
    else if x = '?' && (s.inFlow || c.endsAt 1) then s.openEntry .blockMapStart .key !s.inFlow
    else if x = ':' && (s.inFlow || c.endsAt 1) then s.addValue
    else if x = '*' then
      ((← s.saveKey).allow false).read ((readAnchor c.advance).map fun (n, c) => (.alias n, c))
    else if x = '&' then
      ((← s.saveKey).allow false).read ((readAnchor c.advance).map fun (n, c) => (.anchor n, c))
    else if x = '!' then ((← s.saveKey).allow false).read (readTag s.inFlow c)
    else if (x = '|' || x = '>') && !s.inFlow then
      let s ← s.dropKey
      let (text, c) ← readBlock (x = '|') s.indent c.advance
      return (s.allow true).addScalar (if x = '|' then .literal else .folded) text c
    else if x = '\'' || x = '"' then
      let s ← s.saveKey
      let (text, c) ← readQuoted (x = '\'') (2 * c.rest.length + 1) c.advance []
      return (s.allow false).addScalar .quoted text c
    else if startsPlain s.inFlow c x then
      let s ← s.saveKey
      let (text, c, broken) ←
        readPlain s.inFlow (s.indent + 1).toNat (2 * c.rest.length + 1) c [] { }
      return (s.allow broken).addScalar .plain text c
    else throw s.mark

/-- How many tokens are known for good: those before the first that may be a key. -/
def settled (s : State) : Nat :=
  s.keys.foldl (fun n k => (k.map fun k => min n k.number).getD n) s.tokens.size

/-- All tokens, up to the end or to the place where none can be read. -/
def run : Nat → State → List Token
  | 0, s => s.tokens.toList
  | fuel + 1, s =>
    match s.next.bind dropStale with
    | .error line => s.tokens.toList.take s.settled ++ [⟨.broken, line, line⟩]
    | .ok s =>
      if s.tokens.back?.map (·.kind) = some .textEnd then s.tokens.toList else run fuel s

end State

end Tokens

/-- Characters that may stand in a YAML text. -/
def isAllowed (c : Char) : Bool :=
  let n := c.toNat
  n = 9 || n = 10 || n = 13 || (0x20 ≤ n && n ≤ 0x7E) || n = 0x85 || (0xA0 ≤ n && n ≤ 0xD7FF) ||
    (0xE000 ≤ n && n ≤ 0xFFFD && n ≠ 0xFEFF) || (0x10000 ≤ n && n ≤ 0x10FFFF)

/-- The tokens of a text, which may start with a byte order mark. -/
def tokensOf (text : List Char) : List Token :=
  let text := match text with
    | '\uFEFF' :: rest => rest
    | rest => rest
  if !text.all isAllowed then [⟨.broken, 0, 0⟩]
  else Tokens.State.run (2 * text.length + 4) { cursor := ⟨text, 0, 0, 0⟩, tokens := #[⟨.textStart, 0, 0⟩] }

end CompiledViews.Yaml
