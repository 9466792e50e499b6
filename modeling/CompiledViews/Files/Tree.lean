import CompiledViews.Path.Component
import CompiledViews.Text.Utf8

/-!
The files of a system, seen from a working directory: directories, files in them and symbolic links,
and how the system finds what a path leads to.
-/

namespace CompiledViews

inductive FileNode where
  | file (bytes : List UInt8)
  | link (target : String)
  | dir (entries : List (String × FileNode))
  deriving Inhabited

/-- Why the system refuses a path. -/
inductive SystemError where
  | notFound
  | notDirectory
  | isDirectory
  | tooManyLinks
  | nameTooLong
  | nullCharacter
  deriving Repr, DecidableEq

def SystemError.message : SystemError → String
  | .notFound => "No such file or directory (os error 2)"
  | .notDirectory => "Not a directory (os error 20)"
  | .isDirectory => "Is a directory (os error 21)"
  | .tooManyLinks => "Too many levels of symbolic links (os error 40)"
  | .nameTooLong => "File name too long (os error 36)"
  | .nullCharacter => "file name contained an unexpected NUL byte"

/-- The names from the root down to a node, none of them a link's. -/
abbrev Location := List String

/-- The components of the path from the root to a location. -/
def rooted (location : Location) : List Path.Component := .root :: location.map .name

/-- The components of a path, one after the other as they are followed. A path that ends in a slash
or a dot leads to a directory only. -/
def Path.steps (path : String) : List Path.Component :=
  components path ++ match (Text.splitList isSlash path.toList).getLast? with
    | some [] | some ['.'] => [.here]
    | _ => []

namespace FileNode

def child? (entries : List (String × FileNode)) (name : String) : Option FileNode :=
  (entries.find? (·.1 = name)).map (·.2)

/-- The node at a location below another. -/
def get? : FileNode → Location → Option FileNode
  | t, [] => some t
  | .dir entries, name :: names => (child? entries name).bind fun t => t.get? names
  | _, _ :: _ => none

/-- Puts something at a location, making the directories above it. -/
def set (t : FileNode) (location : Location) (new : FileNode) : FileNode :=
  match location with
  | [] => new
  | name :: names =>
    let entries := match t with
      | .dir entries => entries
      | _ => []
    let below := ((child? entries name).getD (.dir [])).set names new
    .dir (if (child? entries name).isSome then
        entries.map fun e => if e.1 = name then (name, below) else e
      else entries ++ [(name, below)])

/-- Takes away what is at a location. -/
def erase : FileNode → Location → FileNode
  | .dir entries, [name] => .dir (entries.filter (·.1 ≠ name))
  | .dir entries, name :: names =>
    .dir (entries.map fun e => if e.1 = name then (name, e.2.erase names) else e)
  | t, _ => t

/-- The names at which there is something, with everything below. -/
def count : FileNode → Nat
  | .dir entries => 1 + countAll entries
  | _ => 1
where
  countAll : List (String × FileNode) → Nat
    | [] => 0
    | (_, t) :: ts => t.count + countAll ts

/-- How many links may be followed on the way to a file. -/
def maxLinks : Nat := 40

/-- How many bytes a name may have. -/
def maxNameBytes : Nat := 255

/-- Walks from a directory along components; `links` more links may be followed, and names are
looked up at the locations that are `allowed`. Above the root there is the root again. -/
def follow (t : FileNode) (allowed : Location → Bool) :
    Nat → Location → List Path.Component → Except SystemError Location
  | _, at_, [] => .ok at_
  | links, _, .root :: cs => follow t allowed links [] cs
  | links, at_, .here :: cs =>
    match t.get? at_ with
    | some (.dir _) => follow t allowed links at_ cs
    | _ => .error .notDirectory
  | links, at_, .up :: cs =>
    match t.get? at_ with
    | some (.dir _) => follow t allowed links at_.dropLast cs
    | _ => .error .notDirectory
  | links, at_, .name s :: cs =>
    if allowed (at_ ++ [s]) = false then .error .nameTooLong
    else match t.get? at_ with
      | some (.dir entries) =>
        if maxNameBytes < Text.Utf8.size s then .error .nameTooLong
        else match child? entries s with
          | none => .error .notFound
          | some (.link target) =>
            if target.isEmpty then .error .notFound
            else match links with
              | 0 => .error .tooManyLinks
              | links + 1 => follow t allowed links at_ (Path.steps target ++ cs)
          | some _ => follow t allowed links (at_ ++ [s]) cs
      | _ => .error .notDirectory
  termination_by links _ cs => (links, cs.length)

end FileNode

/-- All files of a system below its root, and the working directory, from which relative paths
lead. -/
structure FileTree where
  root : FileNode
  home : Location
  deriving Inhabited

namespace FileTree

/-- Nothing but an empty directory. -/
def empty : FileTree := ⟨.dir [], []⟩

/-- How many bytes a path may have that the system is asked for. -/
def maxPathBytes : Nat := 4095

/-- What the system says of a path before it looks at any file. -/
def refusal? (path : String) : Option SystemError :=
  if path.isEmpty then some .notFound
  else if path.toList.contains '\x00' then some .nullCharacter
  else if maxPathBytes < Text.Utf8.size path then some .nameTooLong
  else none

/-- Whether the path from the root to a location is short enough to ask the system for it. -/
def isShort (location : Location) : Bool :=
  Text.Utf8.size (Path.ofComponents (rooted location)) ≤ maxPathBytes

/-- Walks along components from the working directory. -/
def follow (t : FileTree) (cs : List Path.Component) : Except SystemError Location :=
  t.root.follow (fun _ => true) FileNode.maxLinks t.home cs

/-- Where a path leads. -/
def locate (t : FileTree) (path : String) : Except SystemError Location :=
  match refusal? path with
  | some e => .error e
  | none => t.follow (Path.steps path)

/-- Where a path leads that is resolved name by name. It does not have to be short itself, but the
paths from the root to what it leads to have to be, and to all that is looked up on the way. -/
def canonicalize (t : FileTree) (path : String) : Except SystemError Location :=
  match refusal? path with
  | none | some .nameTooLong => do
    let location ← t.root.follow isShort FileNode.maxLinks t.home (Path.steps path)
    if isShort location then return location else throw .nameTooLong
  | some e => .error e

/-- What a path leads to. -/
def find (t : FileTree) (path : String) : Except SystemError FileNode := do
  match t.root.get? (← t.locate path) with
  | some e => return e
  | none => throw .notFound

def isDir (t : FileTree) (path : String) : Bool :=
  match t.find path with
  | .ok (.dir _) => true
  | _ => false

def exists_ (t : FileTree) (path : String) : Bool :=
  match t.find path with
  | .ok _ => true
  | .error _ => false

/-- The bytes of a file. -/
def read (t : FileTree) (path : String) : Except SystemError (List UInt8) := do
  match ← t.find path with
  | .file bytes => return bytes
  | _ => throw .isDirectory

/-- The location that a path has by its text alone. -/
def textLocation (t : FileTree) (path : String) : Location :=
  (Path.components path).foldl (fun names c =>
    match c with
    | .root => []
    | .here => names
    | .up => names.dropLast
    | .name s => names ++ [s]) t.home

/-- Where a path is to be written: where it leads, or below where its directory does. -/
def target (t : FileTree) (path : String) : Location :=
  match t.locate path with
  | .ok location => location
  | .error _ =>
    match t.follow (Path.components path).dropLast with
    | .ok above => above ++ (Path.fileName? path).toList
    | .error _ => t.textLocation path

def set (t : FileTree) (location : Location) (new : FileNode) : FileTree :=
  { t with root := t.root.set location new }

def write (t : FileTree) (path : String) (bytes : List UInt8) : FileTree :=
  t.set (t.target path) (.file bytes)

/-- Makes an empty file, unless there is a file. -/
def create (t : FileTree) (path : String) : Except SystemError FileTree :=
  match t.find path with
  | .ok (.file _) => .ok t
  | .ok _ => .error .isDirectory
  | .error .notFound => do
    if path.isEmpty then throw .notFound
    let above ← t.follow (Path.components path).dropLast
    match t.root.get? above with
    | some (.dir _) => return t.write path []
    | _ => throw .notDirectory
  | .error e => .error e

/-- Makes a directory, unless there is one. -/
def makeDir (t : FileTree) (path : String) : FileTree :=
  if t.isDir path then t else t.set (t.target path) (.dir [])

/-- The location of a path whose last name is not followed if it is a link. -/
def entryLocation (t : FileTree) (path : String) : Location :=
  match t.follow (Path.components path).dropLast, Path.fileName? path with
  | .ok above, some name => above ++ [name]
  | _, _ => t.target path

/-- Takes away a file or a link. -/
def remove (t : FileTree) (path : String) : FileTree :=
  { t with root := t.root.erase (t.entryLocation path) }

/-- Moves a file or a link in place of another. -/
def rename (t : FileTree) (source destination : String) : FileTree :=
  match t.root.get? (t.entryLocation source) with
  | none => t
  | some e =>
    let t' := t.remove source
    t'.set (t'.entryLocation destination) e

end FileTree

end CompiledViews
