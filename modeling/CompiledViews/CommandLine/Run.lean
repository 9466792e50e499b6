import CompiledViews.CommandLine.Settings

/-! Running an invocation: what is printed, and the status of the process. -/

namespace CompiledViews.CommandLine

def versionText : String := "0.1.0"

/-- What a command has to say. An engine that is given goes on watching. -/
structure Report where
  out : String := ""
  err : String := ""
  failure : Option Failure := none
  watching : Option Engine := none

/-- What a process leaves. -/
structure Output where
  status : Nat
  out : String := ""
  err : String := ""
  watching : Option Engine := none

def Report.output (r : Report) : Output :=
  match r.failure with
  | none => ⟨0, r.out, r.err, r.watching⟩
  | some f => ⟨f.status, r.out, r.err ++ f.report, none⟩

def lines (ls : List String) : String := String.join (ls.map (· ++ "\n"))

/-- Modules are named by numbers of 32 hexadecimal digits. -/
def moduleName (n : Nat) : String :=
  let digits := Nat.toDigits 16 n
  "View_" ++ String.ofList (List.replicate (32 - digits.length) '0' ++ digits)

/-- The engine for a command. -/
def engine (t : FileTree) (c : Config) (watched : Bool) : Except EngineError Engine :=
  let c := { c with watch := { c.watch with enabled := watched } }
  Engine.build t c { Engine.workshop c with nameOf := moduleName } true

/-- Text in a column, with blanks after it. -/
def padded (width : Nat) (s : String) : String :=
  s ++ String.ofList (List.replicate (width - s.length) ' ')

def listLine (long : Bool) (path : String) (s : Source) : String :=
  s!"{padded 9 s.kind} {path}" ++ match long, s.file? with
    | true, some file => s!"  {file}"
    | _, _ => ""

/-- The templates, one on a line. -/
def list (e : Engine) (quiet long : Bool) : Report :=
  let r := e.registry
  let physical := r.physicalCount
  { out := lines (r.sources.rows.map fun (path, s) => listLine long path s)
    err := if quiet then "" else
      s!"{r.size} templates ({physical} physical, {r.size - physical} in-memory) " ++
        s!"under {e.config.sources.root}\n" }

/-- The lines on one template that was checked. -/
def checkLines (e : Engine) (verbose : Nat) (quiet : Bool) (path : String) : Answer → List String
  | .view id =>
    match e.cache.views[id]? with
    | none => []
    | some v =>
      if 0 < verbose then [s!"ok    {path}  {v.typeName} ({v.module.name})"]
      else if quiet then []
      else [s!"ok    {path}  {v.typeName}"]
  | .error error =>
    s!"FAIL  {path}" :: match error.diagnostics? with
      | some ds => ds.map fun d => s!"      {d.text}"
      | none => [s!"      {error.message}"]
  | _ => []

/-- Compiles the given templates, or all if none is given. -/
def check (e : Engine) (t : FileTree) (verbose : Nat) (quiet : Bool) (paths : List String) :
    Report :=
  let (outcomes, e) := if paths.isEmpty then e.checkAll t else e.warm t paths
  let total := outcomes.length
  let failed := outcomes.countP (·.2.isError)
  { out := lines (outcomes.flatMap fun (path, answer) => checkLines e verbose quiet path answer)
    err := if failed = 0 && !quiet then s!"{total} templates compiled\n" else ""
    failure := if failed = 0 then none
      else some (.validation s!"{failed} of {total} templates failed to compile") }

/-- Renders one template. The text ends with a line feed in any case. -/
def render (e : Engine) (t : FileTree) (path : String) (model : Json) : Report :=
  match (e.serve t [.render path model]).1 with
  | [.text s] => { out := if s.toList.getLast? = some '\n' then s else s ++ "\n" }
  | [.error error] => { failure := some (.view error) }
  | _ => {}

/-- Compiles all templates, unless told not to, and then watches them. -/
def watch (e : Engine) (t : FileTree) (quiet lazy : Bool) : Report :=
  let e := if lazy then e else (e.checkAll t).2
  { err := if quiet then "" else
      s!"watching {e.registry.size} templates under {e.config.sources.root} (Ctrl-C to stop)\n"
    watching := some e }

/-- Runs the command of an invocation with a configuration. -/
def Invocation.execute (i : Invocation) (t : FileTree) (c : Config) : Report :=
  let withEngine (watched : Bool) (f : Engine → Report) : Report :=
    match engine t c watched with
    | .error e => { failure := some (.engine e) }
    | .ok e => f e
  match i.command with
  | .list long => withEngine false fun e => list e i.quiet long
  | .check paths => withEngine false fun e => check e t i.verbose i.quiet paths
  | .render path arg =>
    match (arg.map (readModel t)).getD (.ok (.obj [])) with
    | .error f => { failure := some f }
    | .ok model => withEngine false fun e => render e t path model
  | .watch lazy => withEngine true fun e => watch e t i.quiet lazy

/-- Runs an invocation: variables from files, the configuration, the log, and then the command. -/
def Invocation.run (i : Invocation) (t : FileTree) (env : Environment) : Output :=
  match Environment.loadFiles t "." env with
  | (_, some e) => { status := 2, err := s!"error: {e.message}\n" }
  | (env, none) =>
    match i.loadConfig t env with
    | .error e => ({ failure := some (.config e) } : Report).output
    | .ok c =>
      match ((i.logConfig env c).file.map t.create).getD (.ok t) with
      | .error e => { status := 1, err := s!"error: failed to open log file: {e.message}\n" }
      | .ok t => (i.execute t c).output

/-- What is printed on standard error when arguments are refused. -/
def usage : String := "usage: stencil [OPTIONS] <list|check|render|watch> [ARGUMENTS]\n"

def Refusal.output : Refusal → Output
  | .misuse => { status := 2, err := usage }
  | .help => { status := 0, out := usage }
  | .version none => { status := 0, out := s!"stencil {versionText}\n" }
  | .version (some name) => { status := 0, out := s!"stencil-{name.text} {versionText}\n" }

/-- Runs the program with the given arguments. -/
def run (t : FileTree) (env : Environment) (args : List String) : Output :=
  match Invocation.ofArguments env args with
  | .error refusal => refusal.output
  | .ok i => i.run t env

end CompiledViews.CommandLine
