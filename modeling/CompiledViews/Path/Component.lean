import CompiledViews.Text.Split

/-!
Paths of a file system as lists of components. Repeated and trailing slashes say nothing, and
neither does a dot, except at the very start of a relative path.
-/

namespace CompiledViews.Path

inductive Component where
  | root
  | here
  | up
  | name (s : String)
  deriving Repr, DecidableEq

def Component.text : Component → String
  | .root => "/"
  | .here => "."
  | .up => ".."
  | .name s => s

/-- The component that a piece between slashes stands for. -/
def ofPiece (piece : List Char) : Option Component :=
  if piece = [] ∨ piece = ['.'] then none
  else if piece = ['.', '.'] then some .up
  else some (.name (String.ofList piece))

def isSlash (c : Char) : Bool := c = '/'

/-- The components of a path given as characters. -/
def componentsList (cs : List Char) : List Component :=
  let pieces := Text.splitList isSlash cs
  let start := if cs.head? = some '/' then [Component.root]
    else if pieces.head? = some ['.'] then [.here] else []
  start ++ pieces.filterMap ofPiece

def components (path : String) : List Component := componentsList path.toList

/-- Whether a path starts at the root. -/
def isAbsolute (path : String) : Bool := path.toList.head? = some '/'

/-- Puts one path below another. An absolute path stays as it is. -/
def join (base rest : String) : String :=
  if isAbsolute rest || base.isEmpty then rest
  else if base.toList.getLast? = some '/' then base ++ rest
  else base ++ "/" ++ rest

/-- The path with the given components. -/
def ofComponents (cs : List Component) : String := cs.foldl (fun path c => join path c.text) ""

/-- The components joined by slashes, the root being a component `/`. -/
def toUnixString (path : String) : String := "/".intercalate ((components path).map Component.text)

/-- What is left of a path below a directory, component by component. -/
def stripComponents : List Component → List Component → Option (List Component)
  | [], cs => some cs
  | _ :: _, [] => none
  | d :: ds, c :: cs => if d = c then stripComponents ds cs else none

theorem stripComponents_eq_some_iff {ds cs rest : List Component} :
    stripComponents ds cs = some rest ↔ cs = ds ++ rest := by
  induction ds generalizing cs with
  | nil => simp [stripComponents, eq_comm]
  | cons d ds ih =>
    cases cs with
    | nil => simp [stripComponents]
    | cons c cs =>
      by_cases h : d = c
      · simp [stripComponents, h, ih]
      · simp [stripComponents, h, Ne.symm h]

/-- The last component, if it is a name. -/
def fileName? (path : String) : Option String :=
  match (components path).getLast? with
  | some (.name s) => some s
  | _ => none

/-- Drops the slashes and dots at the end of a reversed path that say nothing. -/
def dropIdleEnd : List Char → List Char
  | ['/'] => ['/']
  | '/' :: cs => dropIdleEnd cs
  | '.' :: '/' :: cs => dropIdleEnd ('/' :: cs)
  | cs => cs

/-- The path without its last component, as it is written. -/
def parent? (path : String) : Option String :=
  match (components path).getLast? with
  | none | some .root => none
  | some _ =>
    let front := (dropIdleEnd path.toList.reverse).dropWhile (· ≠ '/')
    some (String.ofList (dropIdleEnd front).reverse)

example : components "./a//b/./../c/" = [.here, .name "a", .name "b", .up, .name "c"] := by decide

example : components "/a" = [.root, .name "a"] := by decide

end CompiledViews.Path
