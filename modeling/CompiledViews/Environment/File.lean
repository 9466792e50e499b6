import CompiledViews.Environment.Assignment
import CompiledViews.Files.Tree
import CompiledViews.Text.Utf8

/-!
Files of variables. Quotes may hold line feeds, so a line of such a file may be several lines of
text. Variables that are set stay as they are.
-/

namespace CompiledViews.Environment

/-- What the text of a line has open at its end. -/
inductive LineState where
  | complete
  | blank
  | escape
  | single
  | singleEscape
  | double
  | doubleEscape
  deriving Repr, DecidableEq

/-- Takes in a character; none where a comment starts. -/
def LineState.step (s : LineState) (c : Char) : Option LineState :=
  let start : LineState :=
    if c = '\\' then .escape else if c = '"' then .double
    else if c = '\'' then .single else .complete
  match s with
  | .blank => if c = '#' then none else some start
  | .complete =>
    if Text.isBlank c && c ≠ '\n' && c ≠ '\r' then some .blank else some start
  | .escape => some .complete
  | .double => some (if c = '\\' then .doubleEscape else if c = '"' then .complete else .double)
  | .doubleEscape => some .double
  | .single => some (if c = '\\' then .singleEscape else if c = '\'' then .complete else .single)
  | .singleEscape => some .single

/-- The text up to a comment, and what it has open at its end if there is no comment. -/
def scanLine (s : LineState) : List Char → List Char × Option LineState
  | [] => ([], some s)
  | c :: cs =>
    match s.step c with
    | none => ([], none)
    | some s =>
      let (text, final) := scanLine s cs
      (c :: text, final)

inductive Fault where
  | line (text : String)
  | unreadable (reason : String)
  deriving Repr, DecidableEq

def Fault.message : Fault → String
  | .line text => s!"Error parsing line: '{text}'"
  | .unreadable reason => reason

def dropLineFeed (cs : List Char) : List Char :=
  match cs.reverse with
  | '\n' :: '\r' :: rest => rest.reverse
  | '\n' :: rest => rest.reverse
  | _ => cs

/-- Joins lines of text whose quotes are open to those that follow. A line of bytes that are no
text is none; it ends all. -/
def gather (s : LineState) (open_ : List Char) :
    List (Option (List Char)) → List (Except Fault (List Char))
  | [] => if s = .complete then [] else [.error (.line (String.ofList open_))]
  | none :: _ => [.error (.unreadable "stream did not contain valid UTF-8")]
  | some line :: rest =>
    let text := open_ ++ line
    if (Text.trimStartList text).head? = some '#' then .ok [] :: gather .complete [] rest
    else match scanLine s line with
      | (before, none) => .ok (open_ ++ before) :: gather .complete [] rest
      | (_, some .complete) => .ok (dropLineFeed text) :: gather .complete [] rest
      | (_, some s) => gather s text rest

/-- The lines of some bytes, each with its line feed. -/
def byteLines : List UInt8 → List (List UInt8)
  | [] => []
  | b :: bs =>
    if b = 10 then [b] :: byteLines bs
    else match byteLines bs with
      | [] => [[b]]
      | line :: lines => (b :: line) :: lines

/-- The lines of a file. -/
def fileLines (bytes : List UInt8) : List (Except Fault (List Char)) :=
  gather .complete [] <| (byteLines (Text.Utf8.dropMark bytes)).map fun line =>
    (Text.Utf8.decode line).toOption.map String.toList

/-- Takes in lines up to the first that is refused. `given` are the values that lines before
them gave. -/
def applyLines (env : Environment) (given : List (String × String)) :
    List (Except Fault (List Char)) → Environment × Option Fault
  | [] => (env, none)
  | .error f :: _ => (env, some f)
  | .ok line :: lines =>
    let lookup (name : String) : String :=
      (env.get? name).getD (((given.find? (·.1 = name)).map (·.2)).getD "")
    match readAssignment lookup line with
    | .error text => (env, some (.line (String.ofList text)))
    | .ok none => applyLines env given lines
    | .ok (some (name, value)) =>
      applyLines (env.setDefault name value) ((name, value) :: given) lines

/-- A file of variables that could not be loaded. -/
structure LoadError where
  file : String
  fault : Fault
  deriving Repr, DecidableEq

def LoadError.message (e : LoadError) : String := s!"failed to load {e.file}: {e.fault.message}"

/-- Loads one file; a missing one is as an empty one. -/
def loadFile (t : FileTree) (env : Environment) (file : String) :
    Environment × Option LoadError :=
  match t.read file with
  | .error .notFound => (env, none)
  | .error e => (env, some ⟨file, .unreadable e.message⟩)
  | .ok bytes =>
    let (env, fault) := applyLines env [] (fileLines bytes)
    (env, fault.map (⟨file, ·⟩))

/-- The variable that names the third file. -/
def stageName : String := "STENCIL_ENV"

/-- Loads the files of variables in a directory: the plain one, the local one, and the one of the
stage that is set after these. -/
def loadFiles (t : FileTree) (dir : String) (env : Environment) :
    Environment × Option LoadError :=
  match loadFile t env (Path.join dir ".env") with
  | (env, some e) => (env, some e)
  | (env, none) =>
    match loadFile t env (Path.join dir ".env.local") with
    | (env, some e) => (env, some e)
    | (env, none) =>
      match env.get? stageName with
      | none => (env, none)
      | some stage => loadFile t env (Path.join dir (".env." ++ stage))

end CompiledViews.Environment
