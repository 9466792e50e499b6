import CompiledViews.Config.Basic
import CompiledViews.Engine
import CompiledViews.Environment.File

/-! Why a command fails, and what is told of it: a code, a status of the process, a message, and
sometimes a hint. -/

namespace CompiledViews.CommandLine

inductive Failure where
  | config (error : ConfigError)
  | environment (error : Environment.LoadError)
  | engine (error : EngineError)
  | view (error : ViewError)
  | io (message : String)
  | validation (message : String)
  | user (message : String) (hint : Option String)
  | other (message : String)
  deriving Repr, DecidableEq

namespace Failure

def message : Failure → String
  | .config e => e.message
  | .environment e => e.message
  | .engine e => e.message
  | .view e => e.message
  | .io m | .validation m | .user m _ | .other m => m

def code : Failure → String
  | .config _ | .environment _ => "E001"
  | .io _ => "E002"
  | .engine _ => "E003"
  | .validation _ => "E004"
  | .view ⟨_, .unknownSource⟩ => "E005"
  | .view _ => "E006"
  | .user _ _ => "E010"
  | .other _ => "E999"

def status : Failure → Nat
  | .config _ | .environment _ | .engine _ => 2
  | .io _ => 3
  | .validation _ => 5
  | .view ⟨_, .unknownSource⟩ => 6
  | .view _ => 5
  | .user _ _ | .other _ => 1

def hint? : Failure → Option String
  | .user _ hint => hint
  | .view ⟨_, .unknownSource⟩ => some "run `stencil list` to see registered templates"
  | .config (.notFound _) =>
    some "pass --config or create stencil.yaml in the current directory"
  | _ => none

/-- The lines that report a failure. -/
def report (f : Failure) : String :=
  s!"error: {f.message}\n" ++ match f.hint? with
    | some hint => s!"hint: {hint}\n"
    | none => ""

end Failure

end CompiledViews.CommandLine
