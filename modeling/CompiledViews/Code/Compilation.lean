import CompiledViews.Code.Translation

/-! Reading generated code back, and checking what it says. -/

namespace CompiledViews

namespace Code

/-- What a line of the header says. -/
inductive Entry where
  | module (name : String)
  | ns (name : String)
  | inherits (type : String)
  | import_ (ns : String)
  | origin (o : Origin)
  deriving Repr, DecidableEq

/-- The key and the value of a line of the header; no value is blank. -/
def keyAndValue? : List Char → Option (List Char × List Char)
  | '#' :: cs =>
    let key := cs.takeWhile (· ≠ ' ')
    let value := Text.trimList ((cs.dropWhile (· ≠ ' ')).drop 1)
    if value.isEmpty then none else some (key, value)
  | _ => none

/-- Reads a line of the header, without its line end. -/
def readEntry (line : List Char) : Except String Entry :=
  let unrecognized : Except String Entry :=
    .error s!"unrecognized header line '{String.ofList line}'"
  match keyAndValue? line with
  | none => unrecognized
  | some (key, value) =>
    let value := String.ofList value
    if key = "module".toList then .ok (.module value)
    else if key = "namespace".toList then .ok (.ns value)
    else if key = "inherits".toList then .ok (.inherits value)
    else if key = "import".toList then .ok (.import_ value)
    else if key = "origin".toList then
      match Origin.ofWord? value with
      | some o => .ok (.origin o)
      | none => .error s!"unknown origin '{value}'"
    else unrecognized

/-- The lines of the header with their numbers, each read. -/
def readEntries (lines : List (List Char)) : List (Nat × Except String Entry) :=
  lines.zipIdx.map fun (line, i) => (i + 1, readEntry line)

def badEntries (entries : List (Nat × Except String Entry)) : List Diagnostic :=
  entries.filterMap fun
    | (line, .error message) => some (.errorAtLine Diagnostic.badHeader message line)
    | _ => none

/-- What is picked from the last entry from which `f` picks something. -/
def last? {α : Type} (entries : List (Nat × Except String Entry)) (f : Entry → Option α) :
    Option (Nat × α) :=
  entries.reverse.findSome? fun
    | (line, .ok e) => (f e).map (line, ·)
    | _ => none

def imports (entries : List (Nat × Except String Entry)) : List (Nat × String) :=
  entries.filterMap fun
    | (line, .ok (.import_ ns)) => some (line, ns)
    | _ => none

def checkModule (requested : String) : Option (Nat × String) → List Diagnostic
  | none => [.error Diagnostic.badHeader "missing #module header"]
  | some (line, declared) =>
    if declared = requested then []
    else [.errorAtLine Diagnostic.otherModule
      s!"code declares module '{declared}' but '{requested}' was requested" line]

def checkImports (references : List String) (ns : String) (imports : List (Nat × String)) :
    List Diagnostic :=
  imports.filterMap fun (line, i) =>
    if references.contains i || i = ns then none
    else some (.errorAtLine Diagnostic.unresolvedImport s!"the namespace '{i}' could not be found"
      line)

def isSeparator (line : List Char) : Bool := Text.stripLineEnd line = "---".toList

/-- The manifest that code holds for a module, if nothing is wrong with it. Of a repeated entry the
last one counts, except that all imports do. -/
def read (references : List String) (module : String) (text : String) :
    Except (List Diagnostic) Manifest :=
  let lines := Text.linesList text.toList
  let header := lines.takeWhile (!isSeparator ·)
  let entries := readEntries (header.map Text.stripLineEnd)
  if header.length = lines.length then
    .error (badEntries entries ++ [.error Diagnostic.badHeader "missing '---' separator"])
  else
    let body := String.ofList (lines.drop (header.length + 1)).flatten
    let declared := last? entries fun
      | .module name => some name
      | _ => none
    let ns := ((last? entries fun
      | .ns ns => some ns
      | _ => none).map (·.2)).getD ""
    let inherits := ((last? entries fun
      | .inherits type => some type
      | _ => none).map (·.2)).getD ""
    let origin := ((last? entries fun
      | .origin o => some o
      | _ => none).map (·.2)).getD .text
    let bodyFaults := match readBody (header.length + 1) body with
      | .ok _ => []
      | .error d => [d]
    match badEntries entries ++ checkModule module declared ++
        checkImports references ns (imports entries) ++ bodyFaults with
    | [] => .ok ⟨module, ns, inherits, (imports entries).map (·.2), origin, body⟩
    | ds => .error ds

end Code

/-- Why code could not be compiled. -/
structure CompilationError where
  module : String
  diagnostics : List Diagnostic
  code : String
  deriving Repr, DecidableEq

def CompilationError.message (e : CompilationError) : String :=
  s!"compilation of {e.module} failed with {Diagnostic.errorCount e.diagnostics} error(s)"

/-- Compiles code into the manifest of a module. -/
def compile (references : List String) (module code : String) :
    Except CompilationError Manifest :=
  (Code.read references module code).mapError fun ds => ⟨module, ds, code⟩

end CompiledViews
