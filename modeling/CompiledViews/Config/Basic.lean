import CompiledViews.Directive.Compose
import CompiledViews.Table

/-! The configuration of a project. -/

namespace CompiledViews

/-- A template that the configuration holds itself. -/
structure InlineTemplate where
  body : String
  model : Option TypeName := none
  deriving Repr, DecidableEq

/-- Where templates are found: files below a directory whose names match a pattern, and templates
in the configuration. -/
structure Sources where
  root : String := "views"
  pattern : String := "*.hbs"
  templates : Table InlineTemplate := {}
  deriving Repr, DecidableEq

structure Watching where
  enabled : Bool := true
  coalesceMs : Nat := 50
  deriving Repr, DecidableEq

structure LogSettings where
  level : Option String := none
  format : Option String := none
  file : Option String := none
  deriving Repr, DecidableEq

structure Config where
  generation : Generation := {}
  sources : Sources := {}
  references : List String := ["Stencil", "Stencil.Html"]
  watch : Watching := {}
  log : LogSettings := {}
  deriving Repr, DecidableEq

/-- Why there is no configuration. -/
inductive ConfigError where
  | notFound (path : String)
  | unreadable (reason : String)
  | syntaxError (line : Option Nat) (invalidType : Option String)
  | invalid (reason : String)
  | variableNotFound (name : String)
  deriving Repr, DecidableEq

def ConfigError.message : ConfigError → String
  | .notFound path => s!"config file not found: {path}"
  | .unreadable reason => s!"failed to read config: {reason}"
  | .syntaxError (some line) _ => s!"invalid YAML at line {line}"
  | .syntaxError none _ => "invalid YAML at line unknown"
  | .invalid reason => s!"validation error: {reason}"
  | .variableNotFound name => s!"environment variable not found: {name}"

end CompiledViews
