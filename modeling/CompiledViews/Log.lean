import CompiledViews.Environment.Basic

/-! What is logged, and how. The words for it are ASCII, in any case of letters. -/

namespace CompiledViews

inductive LogLevel where
  | trace
  | debug
  | info
  | warn
  | error
  deriving Repr, DecidableEq

inductive LogFormat where
  | pretty
  | compact
  | json
  deriving Repr, DecidableEq

structure LogConfig where
  level : LogLevel := .info
  format : LogFormat := .pretty
  file : Option String := none
  sourceLocation : Bool := false
  spanEvents : Bool := false
  deriving Repr, DecidableEq

def lowered (s : String) : String := String.ofList (s.toList.map Char.toLower)

namespace LogLevel

def ofText? (s : String) : Option LogLevel :=
  match lowered s with
  | "trace" => some .trace
  | "debug" => some .debug
  | "info" => some .info
  | "warn" => some .warn
  | "warning" => some .warn
  | "error" => some .error
  | _ => none

def text : LogLevel → String
  | .trace => "trace"
  | .debug => "debug"
  | .info => "info"
  | .warn => "warn"
  | .error => "error"

end LogLevel

namespace LogFormat

/-- The format of a name; an unknown name is for the pretty one. -/
def ofText (s : String) : LogFormat :=
  match lowered s with
  | "json" => .json
  | "compact" => .compact
  | _ => .pretty

def text : LogFormat → String
  | .pretty => "pretty"
  | .compact => "compact"
  | .json => "json"

end LogFormat

namespace LogConfig

def isTruthy (s : String) : Bool := lowered s = "true" || s = "1"

/-- What the environment asks for. The general variable for the level counts only where the own one
is not set. -/
def ofEnvironment (env : Environment) : LogConfig :=
  let level := (env.get? "STENCIL_LOG_LEVEL").or (env.get? "RUST_LOG")
  { level := (level.bind LogLevel.ofText?).getD .info
    format := ((env.get? "STENCIL_LOG_FORMAT").map LogFormat.ofText).getD .pretty
    file := env.get? "STENCIL_LOG_FILE"
    sourceLocation := ((env.get? "STENCIL_LOG_SOURCE").map isTruthy).getD false
    spanEvents := ((env.get? "STENCIL_LOG_SPANS").map isTruthy).getD false }

end LogConfig

end CompiledViews
