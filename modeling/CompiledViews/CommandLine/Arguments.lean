import CompiledViews.Environment.Basic

/-!
Arguments of the command line. Options that all commands have may stand before the name of the
command or after it; these are two levels, each read by itself, and what is said after the name
counts more. An option that takes a value has it attached, or takes the next argument.
-/

namespace CompiledViews.CommandLine

inductive Command where
  | list (long : Bool)
  | check (paths : List String)
  | render (path : String) (model : Option String)
  | watch (lazy : Bool)
  deriving Repr, DecidableEq

structure Invocation where
  verbose : Nat
  quiet : Bool
  config : Option String
  root : Option String
  command : Command
  deriving Repr, DecidableEq

inductive CommandName where
  | list
  | check
  | render
  | watch
  | help
  deriving Repr, DecidableEq

def CommandName.text : CommandName → String
  | .list => "list"
  | .check => "check"
  | .render => "render"
  | .watch => "watch"
  | .help => "help"

/-- Why arguments name no invocation. -/
inductive Refusal where
  | misuse
  | help
  | version (of : Option CommandName)
  deriving Repr, DecidableEq

inductive OptionName where
  | verbose
  | quiet
  | config
  | root
  | help
  | version
  | long
  | model
  | lazy
  deriving Repr, DecidableEq

structure OptionForm where
  name : OptionName
  short : Option Char
  long : String
  takesValue : Bool := false
  deriving Repr, DecidableEq

/-- How many operands a level takes. -/
inductive Operands where
  | none
  | one
  | any
  deriving Repr, DecidableEq

structure Level where
  command : Option CommandName := none
  forms : List OptionForm
  commands : List (String × CommandName) := []
  operands : Operands := .none
  deriving Repr, DecidableEq

def commonForms : List OptionForm :=
  [⟨.verbose, some 'v', "verbose", false⟩, ⟨.quiet, some 'q', "quiet", false⟩,
    ⟨.config, some 'c', "config", true⟩, ⟨.root, none, "root", true⟩,
    ⟨.help, some 'h', "help", false⟩, ⟨.version, some 'V', "version", false⟩]

def topLevel : Level where
  forms := commonForms
  commands := [("list", .list), ("ls", .list), ("check", .check), ("render", .render),
    ("watch", .watch), ("help", .help)]

/-- What stands after the name of a command. -/
def CommandName.level (c : CommandName) : Level :=
  let level : Level := { command := some c, forms := commonForms }
  match c with
  | .list => { level with forms := commonForms ++ [⟨.long, some 'l', "long", false⟩] }
  | .check => { level with operands := .any }
  | .render => { level with
      forms := commonForms ++ [⟨.model, some 'm', "model", true⟩]
      operands := .one }
  | .watch => { level with forms := commonForms ++ [⟨.lazy, none, "lazy", false⟩] }
  | .help => level

/-- What has been given on a level so far. The value of the last option may be still to come, or
have come and not been looked at. -/
structure Given where
  verbose : Nat := 0
  flags : List OptionName := []
  values : List (OptionName × String) := []
  pending : Option (OptionName × Option String) := none
  operands : List String := []
  deriving Repr, DecidableEq

namespace Given

/-- No more is counted than this. -/
def maxVerbose : Nat := 255

/-- Takes in the value of an option, which may have only one; a path must not be empty. -/
def settle (g : Given) (o : OptionName) (value : String) : Except Refusal Given :=
  if (g.values.lookup o).isSome || (value.isEmpty && o ≠ .model) then .error .misuse
  else .ok { g with values := (o, value) :: g.values }

def settlePending (g : Given) : Except Refusal Given :=
  match g.pending with
  | none => .ok g
  | some (_, none) => .error .misuse
  | some (o, some value) => { g with pending := none }.settle o value

/-- Takes in an option without a value. -/
def flag (g : Given) (level : Level) (o : OptionName) : Except Refusal Given := do
  let g ← g.settlePending
  match o with
  | .help => throw .help
  | .version => throw (.version level.command)
  | .verbose => return { g with verbose := min maxVerbose (g.verbose + 1) }
  | o => if g.flags.contains o then throw .misuse else return { g with flags := o :: g.flags }

/-- Takes in an option with a value, which is attached or still to come. -/
def valued (g : Given) (o : OptionName) (attached : Option String) : Except Refusal Given := do
  let g ← g.settlePending
  match attached with
  | some value => g.settle o value
  | none => return { g with pending := some (o, none) }

def operand (g : Given) (level : Level) (s : String) : Except Refusal Given := do
  let g ← g.settlePending
  match level.operands, g.operands with
  | .any, _ | .one, [] => return { g with operands := g.operands ++ [s] }
  | _, _ => throw .misuse

/-- Takes in what stands after two dashes. -/
def long (g : Given) (level : Level) (cs : List Char) : Except Refusal Given :=
  let attached := match cs.dropWhile (· ≠ '=') with
    | [] => none
    | _ :: value => some (String.ofList value)
  match level.forms.find? (·.long.toList = cs.takeWhile (· ≠ '=')) with
  | none => .error .misuse
  | some form =>
    if form.takesValue then g.valued form.name attached
    else if attached.isSome then .error .misuse
    else g.flag level form.name

/-- Takes in what stands after one dash: options of one letter each, the last of which may have a
value attached. -/
def shorts (g : Given) (level : Level) : List Char → Except Refusal Given
  | [] => .ok g
  | c :: cs =>
    match level.forms.find? (·.short = some c) with
    | none => .error .misuse
    | some form =>
      if form.takesValue then
        g.valued form.name (match cs with
          | [] => none
          | '=' :: value => some (String.ofList value)
          | value => some (String.ofList value))
      else do (← g.flag level form.name).shorts level cs

end Given

/-- Whether an argument can be no value, because it looks like an option. -/
def looksLikeOption : List Char → Bool
  | '-' :: _ :: _ => true
  | _ => false

/-- Reads the arguments of a level, up to the name of a command. -/
def readLevel (level : Level) (g : Given) :
    List String → Except Refusal (Given × Option (CommandName × List String))
  | [] => .ok (g, none)
  | arg :: rest =>
    match g.pending with
    | some (o, none) =>
      if looksLikeOption arg.toList then .error .misuse
      else readLevel level { g with pending := some (o, some arg) } rest
    | _ =>
      match level.commands.lookup arg with
      | some name => .ok (g, some (name, rest))
      | none =>
        match arg.toList with
        | ['-', '-'] => do return (← rest.foldlM (Given.operand · level) g, none)
        | '-' :: '-' :: cs => do readLevel level (← g.long level cs) rest
        | '-' :: c :: cs => do readLevel level (← g.shorts level (c :: cs)) rest
        | _ => do readLevel level (← g.operand level arg) rest

/-- The value of an option on a level: given, or else from a variable. -/
inductive Value where
  | given (s : String)
  | fromVariable (s : String)
  | absent
  deriving Repr, DecidableEq

def Given.value (g : Given) (env : Environment) (o : OptionName) (variable_ : String) :
    Except Refusal Value :=
  match g.values.lookup o, env.get? variable_ with
  | some s, _ => .ok (.given s)
  | none, some s => if s.isEmpty then .error .misuse else .ok (.fromVariable s)
  | none, none => .ok .absent

/-- A value given below counts more than one given above, and that more than a variable. -/
def Value.merge : Value → Value → Option String
  | _, .given s | .given s, _ | .fromVariable s, _ | .absent, .fromVariable s => some s
  | .absent, .absent => none

/-- What a level says in the end. -/
structure Said where
  given : Given
  config : Value
  root : Value
  deriving Repr, DecidableEq

/-- Ends a level. Nobody can want it both verbose and quiet. -/
def Given.finish (g : Given) (env : Environment) : Except Refusal Said := do
  let g ← g.settlePending
  let config ← g.value env .config "STENCIL_CONFIG"
  let root ← g.value env .root "STENCIL_ROOT"
  if g.flags.contains .quiet && g.verbose ≠ 0 then throw .misuse
  return ⟨g, config, root⟩

/-- The command of a name with what is given after it. -/
def CommandName.command (c : CommandName) (g : Given) : Except Refusal Command :=
  match c with
  | .list => .ok (.list (g.flags.contains .long))
  | .check => .ok (.check g.operands)
  | .render =>
    match g.operands with
    | [path] => .ok (.render path (g.values.lookup .model))
    | _ => .error .misuse
  | .watch => .ok (.watch (g.flags.contains .lazy))
  | .help => .error .misuse

/-- Asks for help, on one command or on all. -/
def readHelp : List String → Refusal
  | [] => .help
  | [name] => if (topLevel.commands.lookup name).isSome then .help else .misuse
  | _ => .misuse

/-- Reads the arguments of the command line. -/
def Invocation.ofArguments (env : Environment) (args : List String) :
    Except Refusal Invocation := do
  let (above, named) ← readLevel topLevel {} args
  match named with
  | none => throw .misuse
  | some (.help, rest) => throw (readHelp rest)
  | some (name, rest) =>
    let (below, _) ← readLevel name.level {} rest
    let below ← below.finish env
    let command ← name.command below.given
    let above ← above.finish env
    return {
      verbose := if below.given.verbose = 0 then above.given.verbose else below.given.verbose
      quiet := above.given.flags.contains .quiet || below.given.flags.contains .quiet
      config := above.config.merge below.config
      root := above.root.merge below.root
      command := command }

end CompiledViews.CommandLine
