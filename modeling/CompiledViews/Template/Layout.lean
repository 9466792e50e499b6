import CompiledViews.Template.Syntax
import CompiledViews.Text.Blank

/-!
The text between tags. A tag removes the blanks on a side where it carries a tilde. A tag that
prints nothing and stands alone on its line takes the line with it.
-/

namespace CompiledViews.Template

/-- A stretch of text or a tag, in the order of the template. -/
inductive Segment where
  | text (cs : List Char)
  | tag (t : Tag)
  deriving Repr

namespace Layout

def isMargin (c : Char) : Bool := c = ' ' || c = '\t'

def isLineBreak (c : Char) : Bool := c = '\n' || c = '\r'

/-- Whether only margin follows up to the end of the line, or of the text. -/
def endsLine (after : List Char) : Bool :=
  after.isEmpty || ((after.dropWhile isMargin).head?.map isLineBreak).getD false

/-- Whether only margin precedes from the start of the line; `before` is reversed. -/
def startsLine (before : List Char) : Bool :=
  ((before.dropWhile isMargin).head?.map isLineBreak).getD true

def dropLineBreak : List Char → List Char
  | '\r' :: '\n' :: cs => cs
  | '\n' :: cs => cs
  | cs => cs

def trimMarginEnd (cs : List Char) : List Char := (cs.reverse.dropWhile isMargin).reverse

/-- Text with its escapes resolved. A backslash before braces goes, and so does the first of
several; `fenced` says whether braces follow the text. -/
def unescape (fenced : Bool) : List Char → List Char
  | [] => []
  | '\\' :: '\x7b' :: '\x7b' :: '\x7b' :: '\x7b' :: cs =>
    '\x7b' :: '\x7b' :: '\x7b' :: '\x7b' :: unescape fenced cs
  | '\\' :: '\x7b' :: '\x7b' :: cs => '\x7b' :: '\x7b' :: unescape fenced cs
  | '\\' :: '\\' :: cs =>
    have := (List.dropWhile_suffix (· = '\\') (l := cs)).length_le
    let rest := cs.dropWhile (· = '\\')
    let first := if (rest.isEmpty && fenced) || ['\x7b', '\x7b'].isPrefixOf rest then [] else ['\\']
    first ++ '\\' :: cs.takeWhile (· = '\\') ++ unescape fenced (cs.dropWhile (· = '\\'))
  | c :: cs => c :: unescape fenced cs
  termination_by cs => cs.length
  decreasing_by all_goals simp only [List.length_cons] at *; omega

/-- What the tags so far say about the text that follows them. -/
structure State where
  trims : Bool := false
  takesLine : Bool := false
  segments : List Segment := []

/-- Adds the text before a tag, or the text at the end. -/
def State.addText (s : State) (raw fenced : Bool) (cs : List Char) : State :=
  if cs.isEmpty || (s.trims && !raw && cs.all isSpace) then s
  else
    let cs := unescape fenced (if raw then cs.dropWhile isSpace else cs)
    let cs :=
      if s.trims then Text.trimStartList cs
      else if s.takesLine then dropLineBreak (cs.dropWhile isMargin)
      else cs
    { s with takesLine := false, segments := .text cs :: s.segments }

/-- Changes the text right before the next tag. -/
def State.mapLast (s : State) (f : List Char → List Char) : State :=
  match s.segments with
  | .text cs :: rest => { s with segments := .text (f cs) :: rest }
  | _ => s

def isRawClose : Role → Bool
  | .closeRaw _ => true
  | _ => false

/-- Adds a tag; `before` is the text before it, reversed, and `after` the text after it. -/
def State.addTag (s : State) (before after : List Char) (t : Tag) : State :=
  let s := if t.trimsBefore then s.mapLast Text.trimEndList else s
  let alone := endsLine after && startsLine before
  let s := match t.role with
    | .value _ => { s with trims := t.trimsAfter }
    | .includePartial _ => { s with trims := t.trimsAfter, takesLine := alone }
    | .comment => { (if alone then s.mapLast trimMarginEnd else s) with takesLine := alone }
    | _ =>
      { (if alone then s.mapLast trimMarginEnd else s) with
        trims := t.trimsAfter, takesLine := alone }
  { s with segments := .tag t :: s.segments }

/-- Goes through the tags; `before` is the text already passed, reversed. -/
def go (s : State) (place : Nat) (before rest : List Char) : List Tag → State
  | [] => s.addText false false rest
  | t :: tags =>
    let between := rest.take (t.start - place)
    let before := between.reverse ++ before
    let inTag := (rest.drop (t.start - place)).take (t.stop - t.start)
    let after := rest.drop (t.stop - place)
    let s := s.addText (isRawClose t.role) true between
    go (s.addTag before after t) t.stop (inTag.reverse ++ before) after tags

end Layout

/-- The segments of a template with the given tags. -/
def layout (cs : List Char) (tags : List Tag) : List Segment :=
  (Layout.go { } 0 [] cs tags).segments.reverse

end CompiledViews.Template
