import CompiledViews.CommandLine.Arguments
import CompiledViews.CommandLine.Failure
import CompiledViews.Config.Loading
import CompiledViews.Json.Reader
import CompiledViews.Log

/-! What an invocation works with: its configuration, how it logs, and the model to render. -/

namespace CompiledViews.CommandLine

/-- The configuration of an invocation. A directory of templates among the arguments replaces the
configured one. -/
def Invocation.loadConfig (i : Invocation) (t : FileTree) (env : Environment) :
    Except ConfigError Config := do
  let config ← match i.config with
    | some path => Config.loadFrom t env ((Path.parent? path).getD ".") path
    | none => Config.load t env "."
  return match i.root with
    | some root => { config with sources := { config.sources with root := root } }
    | none => config

/-- How an invocation logs: as the environment says, unless the configuration says otherwise, and
the arguments have the last word on the level. -/
def Invocation.logConfig (i : Invocation) (env : Environment) (c : Config) : LogConfig :=
  let log := LogConfig.ofEnvironment env
  let level := (c.log.level.bind LogLevel.ofText?).getD log.level
  { log with
    level := match i.verbose with
      | 0 => if i.quiet then .error else level
      | 1 => .debug
      | _ => .trace
    format := (c.log.format.map LogFormat.ofText).getD log.format
    file := c.log.file.or log.file
    sourceLocation := log.sourceLocation || 2 ≤ i.verbose }

/-- The model that an argument stands for: JSON text, or a file of it after an at sign. -/
def readModel (t : FileTree) (arg : String) : Except Failure Json := do
  let (text, source) ← match arg.toList with
    | '@' :: file =>
      let file := String.ofList file
      match t.read file with
      | .error _ => throw (.io s!"failed to read model file {file}")
      | .ok bytes =>
        match Text.Utf8.decode bytes with
        | .error _ => throw (.io s!"failed to read model file {file}")
        | .ok text => pure (text, file)
    | _ => pure (arg, "--model")
  match Json.parse? text with
  | some model => return model
  | none => throw (.user s!"invalid model JSON in {source}"
      (some "pass inline JSON or @path/to/model.json"))

end CompiledViews.CommandLine
