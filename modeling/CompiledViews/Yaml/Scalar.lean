import CompiledViews.Yaml.Cursor

/-! Scalars of a YAML text: plain, between quotes, and as blocks. Each reader gives the text and
the place after it, or the line at which the scalar breaks off. -/

namespace CompiledViews.Yaml

/-- Blanks and breaks between two words of a scalar. After the first break blanks do not count. -/
structure Gap where
  blanks : List Char := []
  broken : Bool := false
  first : List Char := []
  more : List Char := []

/-- What a gap stands for: its blanks, or for breaks one less than there are, but at least a
space. -/
def Gap.text (g : Gap) : List Char :=
  if !g.broken then g.blanks
  else if g.first = ['\n'] then (if g.more.isEmpty then [' '] else g.more)
  else g.first ++ g.more

/-- Reads a gap. In a plain scalar of a block a tab may not stand before column `indent`. -/
def readGap (indent : Option Nat) : Nat → Cursor → Gap → Except Nat (Cursor × Gap)
  | 0, c, g => .ok (c, g)
  | fuel + 1, c, g =>
    if c.seesBreak then
      let g := if g.broken then { g with more := g.more ++ c.breakText }
        else { g with blanks := [], broken := true, first := c.breakText }
      readGap indent fuel c.nextLine g
    else match c.char? with
      | some x =>
        if !isBlank x then .ok (c, g)
        else if g.broken && x = '\t' && (indent.map fun n => decide (c.column < n)).getD false then
          .error c.line
        else readGap indent fuel c.advance
          (if g.broken then g else { g with blanks := g.blanks ++ [x] })
      | none => .ok (c, g)

/-- The characters that a letter after a backslash stands for. -/
def escapes : List (Char × Char) := [
  ('0', '\x00'), ('a', '\x07'), ('b', '\x08'), ('t', '\t'), ('\t', '\t'), ('n', '\n'),
  ('v', '\x0B'), ('f', '\x0C'), ('r', '\r'), ('e', '\x1B'), (' ', ' '), ('"', '"'), ('/', '/'),
  ('\\', '\\'), ('N', '\x85'), ('_', '\u00A0'), ('L', '\u2028'), ('P', '\u2029')]

def codeLength? : Char → Option Nat
  | 'x' => some 2
  | 'u' => some 4
  | 'U' => some 8
  | _ => none

def hexValue? (c : Char) : Option Nat :=
  if c.isDigit then some (c.toNat - '0'.toNat)
  else if 'a' ≤ c && c ≤ 'f' then some (c.toNat - 'a'.toNat + 10)
  else if 'A' ≤ c && c ≤ 'F' then some (c.toNat - 'A'.toNat + 10)
  else none

/-- The character of an escape, with the number of characters that spell it. -/
def readEscape (c : Cursor) : Option (Char × Nat) :=
  match c.char? 1 with
  | none => none
  | some x =>
    match escapes.find? (·.1 = x) with
    | some e => some (e.2, 2)
    | none =>
      match codeLength? x with
      | none => none
      | some n =>
        let digits := (c.rest.drop 2).take n
        match digits.mapM hexValue? with
        | none => none
        | some values =>
          let code := values.foldl (fun acc d => acc * 16 + d) 0
          if digits.length < n || (0xD800 ≤ code && code ≤ 0xDFFF) || 0x10FFFF < code then none
          else some (Char.ofNat code, n + 2)

/-- Reads a quoted scalar after its first quote. -/
def readQuoted (single : Bool) : Nat → Cursor → List Char → Except Nat (List Char × Cursor)
  | 0, c, _ => .error c.line
  | fuel + 1, c, out =>
    let quote := if single then '\'' else '"'
    match c.char? with
    | none => .error c.line
    | some x =>
      if c.seesDocumentMark then .error c.line
      else if single && x = '\'' && c.sees '\'' 1 then
        readQuoted single fuel (c.advance 2) ('\'' :: out)
      else if x = quote then .ok (out.reverse, c.advance)
      else if !single && x = '\\' && c.seesBreak 1 then do
        let (c, gap) ← readGap none c.rest.length c.advance.nextLine { broken := true }
        readQuoted single fuel c (gap.text.reverse ++ out)
      else if !single && x = '\\' then
        match readEscape c with
        | none => .error c.line
        | some (y, n) => readQuoted single fuel (c.advance n) (y :: out)
      else if isBlank x || isBreak x then do
        let (c, gap) ← readGap none c.rest.length c { }
        readQuoted single fuel c (gap.text.reverse ++ out)
      else readQuoted single fuel c.advance (x :: out)

def isFlowMark (c : Char) : Bool :=
  c = ',' || c = '[' || c = ']' || c = '\x7b' || c = '\x7d'

/-- Reads a plain scalar. `indent` is where lines of the scalar start at least; `gap` is what has
been read since the last word. The last result says whether a line has been left. -/
def readPlain (flow : Bool) (indent : Nat) :
    Nat → Cursor → List Char → Gap → Except Nat (List Char × Cursor × Bool)
  | 0, c, _, _ => .error c.line
  | fuel + 1, c, out, gap =>
    let stop : Except Nat (List Char × Cursor × Bool) := .ok (out.reverse, c, gap.broken)
    match c.char? with
    | none => stop
    | some x =>
      if c.endsAt then do
        let (c', gap') ← readGap (some indent) c.rest.length c gap
        if !flow && c'.column < indent then .ok (out.reverse, c', gap'.broken)
        else if c'.seesDocumentMark || c'.sees '#' then .ok (out.reverse, c', gap'.broken)
        else if c'.atEnd then .ok (out.reverse, c', gap'.broken)
        else readPlain flow indent fuel c' out gap'
      else if flow && x = ':' && ((c.char? 1).map fun y => isFlowMark y || y = '?').getD false then
        .error c.line
      else if (x = ':' && c.endsAt 1) || (flow && isFlowMark x) then stop
      else readPlain flow indent fuel c.advance (x :: gap.text.reverse ++ out) { }

/-- What is to be done with the breaks at the end of a block. -/
inductive Chomping where
  | strip
  | clip
  | keep
  deriving DecidableEq

/-- Reads the indentation and the empty lines before a line of a block. `indent` is zero if it is
not known yet. -/
def readBlockBreaks (indent : Nat) : Nat → Cursor → Nat → List Char →
    Except Nat (Cursor × Nat × List Char)
  | 0, c, widest, breaks => .ok (c, widest, breaks)
  | fuel + 1, c, widest, breaks =>
    let within (c : Cursor) : Bool := indent = 0 || c.column < indent
    let spaces := (c.rest.takeWhile (· = ' ')).length
    let c := c.advance (if indent = 0 then spaces else min spaces (indent - c.column))
    let widest := max widest c.column
    if within c && c.sees '\t' then .error c.line
    else if !c.seesBreak then .ok (c, widest, breaks)
    else readBlockBreaks indent fuel c.nextLine widest (breaks ++ c.breakText)

/-- Reads the lines of a block, all of which are indented as the first. -/
def readBlockLines (literal : Bool) (indent : Nat) :
    Nat → Cursor → (out leading trailing : List Char) → (wasBlank : Bool) →
      Except Nat (Cursor × List Char × List Char × List Char)
  | 0, c, out, leading, trailing, _ => .ok (c, out, leading, trailing)
  | fuel + 1, c, out, leading, trailing, wasBlank =>
    if c.column ≠ indent || c.atEnd then .ok (c, out, leading, trailing)
    else do
      let blank := c.seesBlank
      let joint :=
        if !literal && leading = ['\n'] && !wasBlank && !blank then
          (if trailing.isEmpty then [' '] else []) ++ trailing
        else leading ++ trailing
      let line := c.rest.takeWhile fun x => !isBreak x
      let c := c.skipLineText
      let leading := c.breakText
      let c := if c.seesBreak then c.nextLine else c
      let (c, _, trailing) ← readBlockBreaks indent (c.rest.length + 1) c 0 []
      readBlockLines literal indent fuel c (line.reverse ++ joint.reverse ++ out) leading trailing
        blank

/-- The signs after the mark of a block: how to chomp, and how much it is indented. -/
def readBlockHeader (c : Cursor) : Except Nat (Chomping × Nat × Cursor) :=
  let chomping? (c : Cursor) : Option Chomping :=
    if c.sees '+' then some .keep else if c.sees '-' then some .strip else none
  let digit? (c : Cursor) : Option Nat :=
    (c.char?.filter Char.isDigit).map fun x => x.toNat - '0'.toNat
  match chomping? c with
  | some ch =>
    match digit? c.advance with
    | some 0 => .error c.line
    | some n => .ok (ch, n, c.advance 2)
    | none => .ok (ch, 0, c.advance)
  | none =>
    match digit? c with
    | some 0 => .error c.line
    | some n =>
      match chomping? c.advance with
      | some ch => .ok (ch, n, c.advance 2)
      | none => .ok (.clip, n, c.advance)
    | none => .ok (.clip, 0, c)

/-- Reads a block after its mark, inside a collection indented by `outer`, or by -1 at the top. -/
def readBlock (literal : Bool) (outer : Int) (c : Cursor) : Except Nat (List Char × Cursor) := do
  let (chomping, increment, c) ← readBlockHeader c
  let c := c.advanceWhile isBlank
  let c := if c.sees '#' then c.skipLineText else c
  if !c.atLineEnd then throw c.line
  let c := if c.seesBreak then c.nextLine else c
  let given := if increment = 0 then 0 else (max outer 0).toNat + increment
  let (c, widest, trailing) ← readBlockBreaks given (c.rest.length + 1) c 0 []
  let indent := if given = 0 then max widest (max (outer + 1).toNat 1) else given
  let (c, out, leading, trailing) ←
    readBlockLines literal indent (c.rest.length + 1) c [] [] trailing false
  let tail := match chomping with
    | .strip => []
    | .clip => leading
    | .keep => leading ++ trailing
  return (out.reverse ++ tail, c)

end CompiledViews.Yaml
