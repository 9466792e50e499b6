import CompiledViews.Config.Expansion
import CompiledViews.Config.Reading
import CompiledViews.Files.Tree
import CompiledViews.Files.Wildcard
import CompiledViews.Text.Utf8

/-! Loading the configuration of a project, and what is demanded of it. -/

namespace CompiledViews.Config

/-- The first demand that a configuration does not meet. -/
def complaint? (c : Config) : Option String :=
  if !isQualifiedName c.generation.ns then
    some s!"generation.namespace must be a dotted identifier, got '{c.generation.ns}'"
  else if (Text.trim c.generation.baseType).isEmpty then
    some "generation.base_type must not be empty"
  else match c.generation.imports.find? (!isQualifiedName ·) with
    | some ns => some s!"generation.imports: invalid namespace '{ns}'"
    | none =>
      match c.references.find? (!isQualifiedName ·) with
      | some ns => some s!"compiler.references: invalid namespace '{ns}'"
      | none =>
        match Wildcard.ofText c.sources.pattern with
        | .error f => some s!"sources.pattern '{c.sources.pattern}': {f.message}"
        | .ok _ =>
          if c.sources.templates.keys.any fun name => (Text.trim name).isEmpty then
            some "sources.templates: template names must not be empty"
          else none

def validate (c : Config) : Except ConfigError Config :=
  match c.complaint? with
  | some reason => .error (.invalid reason)
  | none => .ok c

/-- The configuration that a text holds. -/
def ofText (env : Environment) (text : String) : Except ConfigError Config := do
  validate (← ofYaml (← expand env text))

/-- Puts a relative directory of templates below the directory of the project. -/
def belowDirectory (c : Config) (dir : String) : Config :=
  { c with sources := { c.sources with root := Path.join dir c.sources.root } }

/-- Loads a given file of a project in a directory. -/
def loadFrom (t : FileTree) (env : Environment) (project path : String) :
    Except ConfigError Config := do
  if !t.exists_ path then throw (.notFound path)
  let bytes ← (t.read path).mapError fun e => .unreadable e.message
  let text ← (Text.Utf8.decode bytes).mapError fun _ =>
    .unreadable "stream did not contain valid UTF-8"
  let config ← ofText env text
  let dir := ((Path.parent? path).filter (!·.isEmpty)).getD project
  return config.belowDirectory dir

def fileName : String := "stencil.yaml"

/-- Loads the configuration of a project; without a file it is the default. -/
def load (t : FileTree) (env : Environment) (project : String) : Except ConfigError Config :=
  let path := Path.join project fileName
  if t.exists_ path then loadFrom t env project path
  else .ok (({} : Config).belowDirectory project)

end CompiledViews.Config
