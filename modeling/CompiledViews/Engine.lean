import CompiledViews.Cache.Machine
import CompiledViews.Watch.Edit

/-! The engine of a project: the cache of the views of all its templates, and the watchers that
tell it which of them to make anew. -/

namespace CompiledViews

inductive EngineError where
  | sources (error : SourceError)
  | noRuntime
  deriving Repr, DecidableEq

def EngineError.message : EngineError → String
  | .sources e => s!"failed to register templates: {e.message}"
  | .noRuntime => "file watching needs a running tokio runtime"

structure Engine where
  config : Config
  cache : Cache
  pool : Watch.Pool Unit
  watching : Bool

namespace Engine

/-- The workshop of a configuration with its own way of generating code. -/
def workshop (c : Config) : Workshop :=
  { ns := c.generation.ns, tools := Toolchain.standard c.generation c.references }

/-- The engine of a project. Files are watched only where there is a runtime to do it. -/
def build (t : FileTree) (c : Config) (workshop : Workshop) (runtime : Bool) :
    Except EngineError Engine := do
  if c.watch.enabled && !runtime then throw .noRuntime
  let catalogue ←
    (Catalogue.populate t c.sources c.generation c.watch.enabled).mapError .sources
  return {
    config := c
    cache := { registry := catalogue.registry, workshop := workshop }
    pool := catalogue.pool
    watching := c.watch.enabled }

def registry (e : Engine) : Registry := e.cache.registry

def paths (e : Engine) : List String := e.registry.paths

/-- Registers a source in place of another of the same path. -/
def register (e : Engine) (s : Source) : Option Source × Engine :=
  let (replaced, catalogue) := Catalogue.register ⟨e.registry, e.pool⟩ s
  (replaced, { e with
    cache := { e.cache with registry := catalogue.registry }
    pool := catalogue.pool })

/-- Answers requests one after the other. -/
def serve (e : Engine) (t : FileTree) (requests : List Request) : List Answer × Engine :=
  let (answers, cache) := e.cache.serve t requests
  (answers, { e with cache := cache })

/-- Looks up paths, each given back in its canonical spelling with the answer. -/
def warm (e : Engine) (t : FileTree) (paths : List String) : List (String × Answer) × Engine :=
  let keys := paths.map Path.normalizeLogical
  let (answers, e) := e.serve t (keys.map .lookup)
  (keys.zip answers, e)

/-- Looks up all registered paths. -/
def checkAll (e : Engine) (t : FileTree) : List (String × Answer) × Engine := e.warm t e.paths

/-- Invalidates what has changed. A failure keeps nothing else from being invalidated. -/
def notify (e : Engine) (t : FileTree) (paths : List String) : Engine :=
  (e.serve t (invalidations paths)).2

/-- Edits a file, and invalidates the templates whose change is noticed. -/
def change (e : Engine) (t : FileTree) (edit : Watch.Edit) : FileTree × Engine :=
  let edited := edit.apply t
  (edited, e.notify edited ((e.pool.notice t edit).map (·.2)))

/-- The paths whose sources yield something else than they did before. -/
def changed (e : Engine) (before after : FileTree) : List String :=
  (e.registry.sources.rows.filter fun (_, s) =>
    (s.open_ before).toOption ≠ (s.open_ after).toOption).map (·.1)

/-- The engine goes away, and the views that it has stored are released. -/
def drop (e : Engine) : Engine := { e with cache := e.cache.drop, watching := false }

def describe (e : Engine) : String :=
  s!"ViewEngine \x7b cache: {e.cache.describe}, watching: {e.watching} \x7d"

/-- The maker of views in one line. -/
def describeWorkshop (e : Engine) : String :=
  s!"CompilePipeline \x7b namespace: {Text.quote e.cache.workshop.ns}, " ++
    s!"templates: {e.registry.size} \x7d"

end Engine

end CompiledViews
