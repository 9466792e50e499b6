import CompiledViews.Template.Syntax
import CompiledViews.Json.Reader

/-!
Reading the tags of a template. A rule that does not apply leaves behind the furthest place at which
a named construct was looked for in vain; that place is reported when the template cannot be read.
-/

namespace CompiledViews.Template.Grammar

/-- The text still to read, and the number of characters before it. -/
structure Cursor where
  rest : List Char
  place : Nat
  deriving Repr

/-- Inside a test that must fail it is a construct found, not one missed, that is in the way. -/
inductive Sense where
  | wanted
  | unwanted

def Sense.flip : Sense → Sense
  | .wanted => .unwanted
  | .unwanted => .wanted

/-- A rule reads a construct from a cursor. It is given the furthest place so far and returns the
new one, whether it applies or not. -/
def Rule (α : Type) := Sense → Cursor → Nat → Option (α × Cursor) × Nat

namespace Rule

variable {α β : Type}

def pure (a : α) : Rule α := fun _ c far => (some (a, c), far)

def bind (p : Rule α) (f : α → Rule β) : Rule β := fun s c far =>
  match p s c far with
  | (some (a, c), far) => f a s c far
  | (none, far) => (none, far)

instance : Monad Rule where
  pure := Rule.pure
  bind := Rule.bind

/-- Tries a second rule at the same place. -/
def orElse (p : Rule α) (q : Unit → Rule α) : Rule α := fun s c far =>
  match p s c far with
  | (some r, far) => (some r, far)
  | (none, far) => q () s c far

instance : OrElse (Rule α) where
  orElse := Rule.orElse

def refuse : Rule α := fun _ _ far => (none, far)

/-- A construct with a name: where it begins counts for the furthest place. -/
def construct (p : Rule α) : Rule α := fun s c far =>
  match p s c far, s with
  | (some r, far), .wanted => (some r, far)
  | (some r, far), .unwanted => (some r, max far c.place)
  | (none, far), .wanted => (none, max far c.place)
  | (none, far), .unwanted => (none, far)

/-- Applies where `p` does not, and reads nothing. -/
def absent (p : Rule α) : Rule Unit := fun s c far =>
  match p s.flip c far with
  | (some _, far) => (none, far)
  | (none, far) => (some ((), c), far)

def optional (p : Rule α) : Rule (Option α) := fun s c far =>
  match p s c far with
  | (some (a, c), far) => (some (some a, c), far)
  | (none, far) => (some (none, c), far)

/-- Applies `p` as often as it applies, but `fuel` times at most. -/
def repeatUpTo (fuel : Nat) (p : Rule α) : Rule (List α) :=
  match fuel with
  | 0 => pure []
  | fuel + 1 => fun s c far =>
    match p s c far with
    | (some (a, c'), far) =>
      match repeatUpTo fuel p s c' far with
      | (some (as, c''), far) => (some (a :: as, c''), far)
      | (none, far) => (some ([a], c'), far)
    | (none, far) => (some ([], c), far)

/-- Applies `p` as often as it applies. Each round reads at least one character, so the length of
the text bounds the rounds. -/
def many (p : Rule α) : Rule (List α) := fun s c far => repeatUpTo c.rest.length p s c far

/-- The place reached, as a value. -/
def cursor : Rule Cursor := fun _ c far => (some (c, c), far)

/-- Removes characters from the front as long as they satisfy `p`. -/
def skipWhile (p : Char → Bool) : Rule (List Char) := fun _ c far =>
  let taken := c.rest.takeWhile p
  (some (taken, ⟨c.rest.dropWhile p, c.place + taken.length⟩), far)

def spaces : Rule Unit := do let _ ← skipWhile isSpace; Pure.pure ()

/-- One character that satisfies `p`. -/
def char (p : Char → Bool) : Rule Char := fun _ c far =>
  match c.rest with
  | [] => (none, far)
  | a :: rest => if p a then (some (a, ⟨rest, c.place + 1⟩), far) else (none, far)

def exactly (word : List Char) : Rule Unit := fun _ c far =>
  if word.isPrefixOf c.rest then
    (some ((), ⟨c.rest.drop word.length, c.place + word.length⟩), far)
  else (none, far)

/-- Characters that satisfy `p`, at least one. -/
def some1 (p : Char → Bool) : Rule (List Char) := do
  let cs ← skipWhile p
  if cs.isEmpty then refuse else Pure.pure cs

/-- The text between two cursors of one reading. -/
def between (a b : Cursor) : List Char := a.rest.take (b.place - a.place)

end Rule

open Rule

def ident : Rule String := construct do return String.ofList (← some1 isNameChar)

def dot2 : Rule Unit := exactly ['.', '.']

def separator : Rule Char := char fun c => c = '.' || c = '/'

/-- A step to a field: a name, or any text in brackets. The name `this` stays where it is. -/
def item : Rule (List Step) := do
  let name ← (construct do some1 isNameChar) <|> (do
    exactly ['[']
    let name ← construct (skipWhile (· ≠ ']'))
    exactly [']']
    return name)
  return if name = "this".toList then [] else [.field (String.ofList name)]

/-- A path, without blanks. -/
def path : Rule Path := construct do
  let start ← cursor
  let _ ← optional ((do exactly "this".toList; let _ ← separator; return ()) <|>
    exactly ['.', '/'])
  let root ← optional do construct (exactly "@root".toList); let _ ← separator; return ()
  let variable_ ← optional (construct (exactly ['@']))
  let ups ← many do construct dot2; let _ ← separator; return ()
  let first ← item
  let others ← many do let _ ← separator; item
  let stop ← cursor
  return {
    steps := (if root.isSome then [.root] else []) ++ (if variable_.isSome then [.variable] else [])
      ++ ups.map (fun _ => .up) ++ first ++ others.flatten
    spelling := String.ofList (between start stop) }

/-- One character of a string literal with the given quote, escapes included. -/
def quotedChar (quote : Char) : Rule Unit :=
  (do let _ ← char fun c => c ≠ quote && c ≠ '\\'; return ()) <|> (do
    exactly ['\\']
    (do let _ ← char fun c => c = quote || c = '\\' || c = '/' || c = 'b' || c = 'f' || c = 'n' ||
          c = 'r' || c = 't'
        return ()) <|> (do
      exactly ['u']
      let hex : Rule Char := char fun c => (Json.Reader.hexDigit? c).isSome
      let _ ← hex; let _ ← hex; let _ ← hex; let _ ← hex
      return ()))

def quoted (quote : Char) : Rule Unit := do
  exactly [quote]
  construct do let _ ← many (quotedChar quote); return ()
  exactly [quote]

def stringLiteral : Rule Unit := construct (quoted '"' <|> quoted '\'')

/-- The word must not go on as a name. -/
def wordEnd : Rule Unit := Rule.absent (char isNameChar)

def numberLiteral : Rule Unit := construct do
  let _ ← optional (exactly ['-'])
  let _ ← some1 Char.isDigit
  let _ ← optional (exactly ['.'])
  let _ ← skipWhile Char.isDigit
  let _ ← optional do
    exactly ['E']
    let _ ← optional (exactly ['-'])
    some1 Char.isDigit
  wordEnd

def nullLiteral : Rule Unit := construct do exactly "null".toList; wordEnd

def boolLiteral : Rule Unit := construct do
  exactly "true".toList <|> exactly "false".toList
  wordEnd

/-- A list of `p` between commas; the first may be missing. -/
def listed (p : Rule Unit) : Rule Unit := do
  spaces
  let _ ← optional p
  let _ ← many do spaces; exactly [',']; spaces; p
  spaces

/-- The extent of a literal. -/
def literalExtent : Nat → Rule Unit
  | 0 => refuse
  | n + 1 =>
    construct <| stringLiteral
      <|> (construct do
        exactly ['[']
        listed (literalExtent n)
        exactly [']'])
      <|> (construct do
        exactly ['\x7b']
        listed do stringLiteral; spaces; exactly [':']; spaces; literalExtent n
        exactly ['\x7d'])
      <|> numberLiteral <|> nullLiteral <|> boolLiteral

/-- The JSON text of a string in single quotes: `\'` stands for the quote, and double quotes gain a
backslash. -/
def requote : List Char → List Char
  | [] => []
  | '\\' :: '\'' :: cs => '\'' :: requote cs
  | '"' :: cs => '\\' :: '"' :: requote cs
  | c :: cs => c :: requote cs

/-- The value of a literal, read as JSON. -/
def literalOf (cs : List Char) : Expr :=
  let json := match cs with
    | '\'' :: rest => ['"'] ++ requote (rest.dropLast) ++ ['"']
    | cs => cs
  match Json.Reader.read json with
  | some value => .literal value
  | none => .unreadable (String.ofList cs)

def literal (n : Nat) : Rule Expr := do
  let start ← cursor
  literalExtent n
  let stop ← cursor
  return literalOf (between start stop)

def keyword : Rule Unit := construct (exactly "as".toList <|> exactly "else".toList)

/-- Arguments in the order in which they stand. -/
def splitArgs (args : List (Expr ⊕ (String × Expr))) : List Expr × List (String × Expr) :=
  (args.filterMap fun | .inl e => some e | .inr _ => none,
   args.filterMap fun | .inl _ => none | .inr e => some e)

def some1Args (args : Rule (List (Expr ⊕ (String × Expr)))) :
    Rule (List (Expr ⊕ (String × Expr))) := do
  let args ← args
  if args.isEmpty then refuse else return args

mutual

/-- A positional argument. -/
def param : Nat → Rule Expr
  | 0 => refuse
  | n + 1 => construct do
    Rule.absent do keyword; spaces; wordEnd
    literal n <|> (do return .path (← path)) <|> nested n

/-- A call in parentheses. -/
def nested : Nat → Rule Expr
  | 0 => refuse
  | n + 1 => construct do
    exactly ['(']
    spaces
    let e ← (do
      let name ← ident
      let args ← some1Args (many do spaces; arg n)
      let (args, named) := splitArgs args
      return .call (.word name) args named) <|> (do return .call (.path (← path)) [] [])
    spaces
    exactly [')']
    return e

/-- An argument, named or not. -/
def arg : Nat → Rule (Expr ⊕ (String × Expr))
  | 0 => refuse
  | n + 1 =>
    (construct do
      let name ← ident
      spaces
      exactly ['=']
      spaces
      return .inr (name, ← param n)) <|> (do return .inl (← param n))

end

def args (n : Nat) : Rule (List (Expr ⊕ (String × Expr))) := many do spaces; arg n

/-- What a value tag holds: a call with arguments, a call in parentheses, or a path. -/
def valueCall (n : Nat) : Rule Call :=
  (do
    let name ← ident
    let (args, named) := splitArgs (← some1Args (args n))
    return ⟨.word name, args, named, none⟩) <|>
  (do return ⟨← nested n, [], [], none⟩) <|>
  (do return ⟨.path (← path), [], [], none⟩)

def binder : Rule Binder := construct do
  exactly "as".toList
  spaces
  exactly ['|']
  spaces
  let value ← ident
  spaces
  let key ← optional ident
  spaces
  exactly ['|']
  return ⟨value, key⟩

/-- What a block tag holds. -/
def blockCall (n : Nat) : Rule Call := do
  let name ← ident
  let (args, named) := splitArgs (← args n)
  spaces
  return ⟨.word name, args, named, ← optional binder⟩

def isPartialNameChar (c : Char) : Bool :=
  c.isAlphanum || c = '-' || c = '_' || c = '/' || c = '.' || 0x80 ≤ c.toNat

/-- The name of a partial, bare or in single quotes. -/
def partialName : Rule String := construct do
  return String.ofList (← some1 isPartialNameChar <|> (do
    exactly ['\'']
    let name ← some1 (· ≠ '\'')
    exactly ['\'']
    return name))

def partialCall (n : Nat) : Rule Call := do
  let name ← (do return .word (← partialName)) <|> nested n <|> (do return .path (← path))
  let (args, named) := splitArgs (← args n)
  return ⟨name, args, named, none⟩

def tilde : Rule Bool := do
  spaces
  let t ← optional (construct (exactly ['~']))
  spaces
  return t.isSome

/-- A tag between its braces. -/
def tag (opening closing : String) (inner : Rule Role) : Rule Tag := do
  let start ← cursor
  exactly opening.toList
  let trimsBefore ← tilde
  let role ← inner
  let trimsAfter ← tilde
  exactly closing.toList
  let stop ← cursor
  return ⟨start.place, stop.place, role, trimsBefore, trimsAfter⟩

def braces : Rule Role → Rule Tag := tag "\x7b\x7b" "\x7d\x7d"

def sigil (c : Char) : Rule Unit := do exactly [c]; spaces

def elseWord : Rule Unit :=
  construct ((do exactly "else".toList; wordEnd) <|> exactly ['^'])

def elseTag : Rule Tag := construct <| braces do elseWord; return .elseBlock none

def elseChainTag (n : Nat) : Rule Tag := construct <| braces do
  elseWord
  spaces
  return .elseBlock (some (← blockCall n))

/-- The tags that print a value; with three braces or an ampersand they print the same. -/
def valueTag (n : Nat) : Rule Tag :=
  (construct do
    Rule.absent (elseTag <|> elseChainTag n)
    braces do return .value (← valueCall n)) <|>
  (construct <|
    (tag "\x7b\x7b\x7b" "\x7d\x7d\x7d" do return .value (← valueCall n)) <|>
    (do
      let start ← cursor
      exactly "\x7b\x7b".toList
      let trimsBefore ← tilde
      sigil '\x7b'
      let call ← valueCall n
      spaces
      exactly ['\x7d']
      let trimsAfter ← tilde
      exactly "\x7d\x7d".toList
      let stop ← cursor
      return ⟨start.place, stop.place, .value call, trimsBefore, trimsAfter⟩) <|>
    (braces do sigil '&'; return .value (← valueCall n)))

/-- An escape in text: a backslash that keeps the braces after it from opening a tag, or several
backslashes before a tag. -/
def escape : Rule Unit :=
  (do
    exactly "\\\x7b\x7b".toList
    let _ ← optional (exactly "\x7b\x7b".toList)
    return ()) <|>
  (do
    exactly ['\\']
    let _ ← some1 (· = '\\')
    Rule.absent (Rule.absent (exactly "\x7b\x7b".toList)))

/-- One step through text that is stopped by `fence`. -/
def textStep (fence : String) : Rule Unit :=
  escape <|> (do Rule.absent (exactly fence.toList); let _ ← char fun _ => true; return ())

def text : Rule Unit := construct do
  let steps ← many (textStep "\x7b\x7b")
  if steps.isEmpty then refuse else return ()

/-- Reads up to a word and over it. -/
def through (word : List Char) : Rule Unit := do
  let _ ← many do Rule.absent (exactly word); char fun _ => true
  exactly word

def comment : Rule Tag :=
  (construct do
    let start ← cursor
    exactly "\x7b\x7b!".toList
    spaces
    exactly "--".toList
    through "--\x7d\x7d".toList
    let stop ← cursor
    return ⟨start.place, stop.place, .comment, false, false⟩) <|>
  (construct do
    let start ← cursor
    exactly "\x7b\x7b!".toList
    through "\x7d\x7d".toList
    let stop ← cursor
    return ⟨start.place, stop.place, .comment, false, false⟩)

def closeTag (name : Rule String) (role : String → Role) : Rule Tag :=
  construct <| braces do sigil '/'; return role (← name)

def rawBlock (n : Nat) : Rule (List Tag) := do
  let fence := "\x7b\x7b\x7b\x7b"
  let opening ← construct <| tag fence "\x7d\x7d\x7d\x7d" do return .openRaw (← blockCall n)
  spaces
  let _ ← many (textStep fence)
  spaces
  let closing ← construct <| tag fence "\x7d\x7d\x7d\x7d" do sigil '/'; return .closeRaw (← ident)
  return [opening, closing]

mutual

/-- Text and tags up to the first place where neither can be read. -/
def tags : Nat → Rule (List Tag)
  | 0 => Rule.pure []
  | n + 1 => do
    match ← optional (element n) with
    | none => return []
    | some first =>
      let others ← many do spaces; element n
      return first ++ others.flatten

/-- A stretch of text, a tag, or a block with all that it holds. -/
def element : Nat → Rule (List Tag)
  | 0 => refuse
  | n + 1 =>
    (do text; return [])
    <|> (do return [← valueTag n])
    <|> block n
    <|> rawBlock n
    <|> (do return [← comment])
    <|> (do return [← construct <| braces do sigil '*'; return .decorator (← blockCall n)])
    <|> enclosed n (do sigil '#'; sigil '*'; return .openDecorator (← blockCall n))
      (closeTag ident .closeDecorator)
    <|> (do return [← construct <| braces do sigil '>'; return .includePartial (← partialCall n)])
    <|> enclosed n (do sigil '#'; sigil '>'; return .openPartial (← partialCall n))
      (closeTag partialName .closePartial)

/-- A block with its alternatives. -/
def block : Nat → Rule (List Tag)
  | 0 => refuse
  | n + 1 => do
    let opening ← construct <| braces do sigil '#'; return .openBlock (← blockCall n)
    spaces
    let body ← tags n
    let chain ← many do
      spaces
      let t ← elseChainTag n
      spaces
      return t :: (← tags n)
    spaces
    let other ← optional do
      let t ← elseTag
      spaces
      return t :: (← tags n)
    spaces
    let closing ← closeTag ident .closeBlock
    return opening :: body ++ chain.flatten ++ other.getD [] ++ [closing]

/-- A block without alternatives. -/
def enclosed : Nat → Rule Role → Rule Tag → Rule (List Tag)
  | 0, _, _ => refuse
  | n + 1, opening, closing => do
    let opening ← construct (braces opening)
    spaces
    let body ← tags n
    spaces
    let closing ← closing
    return opening :: body ++ [closing]

end

/-- The tags of a template in order, or the place at which it cannot be read. -/
def read (cs : List Char) : Except Nat (List Tag) :=
  let fuel := 3 * cs.length + 3
  match (do let ts ← tags fuel; spaces; construct (Rule.absent (char fun _ => true)); return ts :
      Rule (List Tag)) .wanted ⟨cs, 0⟩ 0 with
  | (some (ts, _), _) => .ok ts
  | (none, far) => .error far

end CompiledViews.Template.Grammar
