/-!
Wildcards for the names of files. An asterisk stands for any text, a question mark for any
character, and brackets for a choice of characters. Two asterisks stand for whole directories, so
they need slashes or the ends of the pattern around them.
-/

namespace CompiledViews

/-- A character between brackets, or all characters from one to another. -/
inductive Wildcard.Choice where
  | single (c : Char)
  | range (first last : Char)
  deriving Repr, DecidableEq

inductive Wildcard.Token where
  | char (c : Char)
  | anyChar
  | anyText
  | anyDirs
  | oneOf (choices : List Wildcard.Choice)
  | noneOf (choices : List Wildcard.Choice)
  deriving Repr, DecidableEq

namespace Wildcard

inductive Complaint where
  | range
  | wildcards
  | recursive
  deriving Repr, DecidableEq

def Complaint.text : Complaint → String
  | .range => "invalid range pattern"
  | .wildcards => "wildcards are either regular `*` or recursive `**`"
  | .recursive => "recursive wildcards must form a single path component"

/-- What is wrong with a pattern, and near which character. -/
structure Fault where
  position : Nat
  complaint : Complaint
  deriving Repr, DecidableEq

def Fault.message (f : Fault) : String :=
  s!"Pattern syntax error near position {f.position}: {f.complaint.text}"

/-- The choices between brackets. A dash between two characters makes a range. -/
def choices : List Char → List Choice
  | a :: '-' :: b :: cs => .range a b :: choices cs
  | c :: cs => .single c :: choices cs
  | [] => []

/-- Cuts a list after the first bracket that closes, which is not its first character. -/
def closeBracket : List Char → Option (List Char × List Char)
  | [] => none
  | c :: cs =>
    match cs.dropWhile (· ≠ ']') with
    | [] => none
    | _ :: rest => some (c :: cs.takeWhile (· ≠ ']'), rest)

theorem closeBracket_length {cs inside rest : List Char}
    (h : closeBracket cs = some (inside, rest)) : rest.length < cs.length := by
  cases cs with
  | nil => simp [closeBracket] at h
  | cons c cs =>
    have := (List.dropWhile_suffix (· ≠ ']') (l := cs)).length_le
    simp only [closeBracket] at h
    split at h
    · simp at h
    · rename_i heq
      simp only [Option.some.injEq, Prod.mk.injEq] at h
      rw [heq] at this
      simp only [List.length_cons] at this ⊢
      rw [← h.2]
      omega

/-- The token that brackets make, with what follows them. -/
def bracket : List Char → Option (Token × List Char)
  | '!' :: cs => (closeBracket cs).map fun (inside, rest) => (.noneOf (choices inside), rest)
  | cs => (closeBracket cs).map fun (inside, rest) => (.oneOf (choices inside), rest)

theorem bracket_length {cs rest : List Char} {t : Token} (h : bracket cs = some (t, rest)) :
    rest.length < cs.length := by
  unfold bracket at h
  split at h
  · obtain ⟨⟨inside, rest'⟩, h', he⟩ := Option.map_eq_some_iff.1 h
    have := closeBracket_length h'
    simp only [Prod.mk.injEq] at he
    rw [← he.2, List.length_cons]
    omega
  · obtain ⟨⟨inside, rest'⟩, h', he⟩ := Option.map_eq_some_iff.1 h
    have := closeBracket_length h'
    simp only [Prod.mk.injEq] at he
    rw [← he.2]
    omega

/-- The tokens of the rest of a pattern from a position on; `fresh` says that a slash or nothing
stands before it. -/
def readTokens (position : Nat) (fresh : Bool) : List Char → Except Fault (List Token)
  | [] => .ok []
  | '?' :: cs => do return .anyChar :: (← readTokens (position + 1) false cs)
  | '*' :: '*' :: '*' :: _ => .error ⟨position + 2, .wildcards⟩
  | '*' :: '*' :: cs =>
    if !fresh then .error ⟨position - 1, .recursive⟩
    else match cs with
      | [] => .ok [.anyDirs]
      | c :: cs =>
        if c = '/' then do return .anyDirs :: (← readTokens (position + 3) true cs)
        else .error ⟨position + 2, .recursive⟩
  | '*' :: cs => do return .anyText :: (← readTokens (position + 1) false cs)
  | '[' :: cs =>
    match h : bracket cs with
    | none => .error ⟨position, .range⟩
    | some (t, rest) =>
      have := bracket_length h
      do return t :: (← readTokens (position + 1 + (cs.length - rest.length)) false rest)
  | c :: cs => do return .char c :: (← readTokens (position + 1) (c = '/') cs)
  termination_by cs => cs.length
  decreasing_by all_goals simp only [List.length_cons]; omega

def Choice.accepts (c : Char) : Choice → Bool
  | .single d => c = d
  | .range first last => first ≤ c && c ≤ last

/-- Whether a token for one character accepts it. -/
def Token.accepts (c : Char) : Token → Bool
  | .char d => c = d
  | .anyChar => true
  | .oneOf cs => cs.any (·.accepts c)
  | .noneOf cs => !cs.any (·.accepts c)
  | .anyText | .anyDirs => false

/-- All ends of a text, the text itself first. -/
def ends : List Char → List (List Char)
  | [] => [[]]
  | c :: cs => (c :: cs) :: ends cs

/-- The ends of a text that start a component, and the empty one. -/
def endsAfterSlash : List Char → List (List Char)
  | [] => [[]]
  | c :: cs => if c = '/' then cs :: endsAfterSlash cs else endsAfterSlash cs

def matchTokens : List Token → List Char → Bool
  | [], cs => cs.isEmpty
  | .anyText :: ts, cs => (ends cs).any (matchTokens ts)
  | .anyDirs :: ts, cs => matchTokens ts cs || (endsAfterSlash cs).any (matchTokens ts)
  | _ :: _, [] => false
  | t :: ts, c :: cs => t.accepts c && matchTokens ts cs

end Wildcard

/-- A pattern that can be matched. -/
structure Wildcard where
  tokens : List Wildcard.Token
  deriving Repr, DecidableEq

namespace Wildcard

def ofText (s : String) : Except Fault Wildcard := (readTokens 0 true s.toList).map Wildcard.mk

def accepts (w : Wildcard) (name : String) : Bool := matchTokens w.tokens name.toList

/-- What is said of a pattern that is none. -/
def Fault.wildcardMessage (f : Fault) (pattern : String) : String :=
  s!"invalid wildcard '{pattern}': {f.message}"

end Wildcard

end CompiledViews
