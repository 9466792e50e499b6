import CompiledViews.Files.Tree
import CompiledViews.Source.Content
import CompiledViews.Text.Quoted
import CompiledViews.Watch.Pool

/-! Sources of templates: texts in memory, and files, which may be watched. -/

namespace CompiledViews

inductive Source.Place where
  | memory (text : String)
  | file (path : String) (subscription : Option Watch.Subscription)
  deriving Repr, DecidableEq

structure Source where
  path : String
  place : Source.Place
  deriving Repr, DecidableEq

namespace Source

def file? (s : Source) : Option String :=
  match s.place with
  | .memory _ => none
  | .file path _ => some path

def isPhysical (s : Source) : Bool := s.file?.isSome

def subscription? (s : Source) : Option Watch.Subscription :=
  match s.place with
  | .memory _ => none
  | .file _ subscription => subscription

def kind (s : Source) : String := if s.isPhysical then "physical" else "virtual"

/-- Opens a source. A directory can be opened like a file, but not read. -/
def open_ (t : FileTree) (s : Source) : Except SystemError Content :=
  match s.place with
  | .memory text => .ok (.text text)
  | .file path _ => do
    match ← t.find path with
    | .file bytes => return .stream bytes none
    | _ => return .stream [] (some SystemError.isDirectory.message)

/-- The text of the error when a source could not be opened. -/
def openMessage (s : Source) (e : SystemError) : String :=
  s!"failed to read template '{s.path}': {e.message}"

/-- A source in one line. -/
def describe (s : Source) : String :=
  let kind := if s.isPhysical then "Physical" else "Virtual"
  let file := match s.file? with
    | some f => s!", file: {Text.quote f}, watched: {s.subscription?.isSome}"
    | none => ""
  s!"SourceDescriptor \x7b path: {Text.quote s.path}, kind: {kind}{file} \x7d"

end Source

/-- What a source yields, in one line. -/
def Content.describe : Content → String
  | .stream _ _ => "SourceContent::Stream(..)"
  | .text s => s!"SourceContent::Text({Text.quote s})"

end CompiledViews
