import CompiledViews.Config.Basic
import CompiledViews.Files.Discovery
import CompiledViews.Source.Basic
import CompiledViews.Table

/-! The registry of sources, each under the canonical spelling of its path. -/

namespace CompiledViews

structure Registry where
  sources : Table Source := {}
  deriving Repr, DecidableEq

namespace Registry

/-- Adds a source, and tells which one it replaces. -/
def register (r : Registry) (s : Source) : Option Source × Registry :=
  let key := Path.normalizeLogical s.path
  (r.sources.get? key, ⟨r.sources.insert key s⟩)

/-- The source of a path in any spelling. -/
def lookup (r : Registry) (path : String) : Option Source :=
  r.sources.get? (Path.normalizeLogical path)

def contains (r : Registry) (path : String) : Bool := (r.lookup path).isSome

def paths (r : Registry) : List String := r.sources.keys

def size (r : Registry) : Nat := r.sources.size

def physicalCount (r : Registry) : Nat := r.sources.values.countP Source.isPhysical

def describe (r : Registry) : String :=
  s!"SourceRegistry \x7b paths: {Text.quoteAll r.paths} \x7d"

end Registry

/-- Why there is no registry of the templates of a project. -/
inductive SourceError where
  | listing (error : ListingError)
  | watching (error : Watch.WatchError)
  deriving Repr, DecidableEq

def SourceError.message : SourceError → String
  | .listing e => e.message
  | .watching e => e.message

/-- A registry with the pool of the watchers that its sources are subscribed to. -/
structure Catalogue where
  registry : Registry := {}
  pool : Watch.Pool Unit := {}
  deriving Repr, DecidableEq

namespace Catalogue

/-- Registers a source. The subscription of one that it replaces ends. -/
def register (c : Catalogue) (s : Source) : Option Source × Catalogue :=
  let (replaced, registry) := c.registry.register s
  let pool := match replaced.bind Source.subscription? with
    | some subscription => c.pool.drop subscription
    | none => c.pool
  (replaced, ⟨registry, pool⟩)

/-- Registers a file below a directory, and subscribes to it if it is to be watched. A file without
a logical path is passed over. -/
def addFile (t : FileTree) (root : String) (watched : Bool) (c : Catalogue)
    (file : String) : Except SourceError Catalogue :=
  match Path.logicalPath? root file with
  | none => .ok c
  | some path => do
    if watched then
      let (subscription, pool) ←
        (c.pool.watch t root file path ()).mapError .watching
      return (register { c with pool := pool } ⟨path, .file file (some subscription)⟩).2
    else return (c.register ⟨path, .file file none⟩).2

def addInline (g : Generation) (c : Catalogue) (name : String) (t : InlineTemplate) : Catalogue :=
  (c.register ⟨Path.normalizeLogical name, .memory (g.compose t.model t.body)⟩).2

/-- Registers the files of a project and then the templates in its configuration, which take the
place of files of the same path. -/
def populate (t : FileTree) (s : Sources) (g : Generation) (watched : Bool) :
    Except SourceError Catalogue := do
  let files ← if t.isDir s.root then (listMatching t s.root s.pattern).mapError .listing
    else pure []
  let c ← files.foldlM (addFile t s.root watched) {}
  return s.templates.rows.foldl (fun c (name, t) => c.addInline g name t) c

end Catalogue

end CompiledViews
