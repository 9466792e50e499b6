import CompiledViews.Decimal.Fixed
import CompiledViews.Source.Registry
import CompiledViews.View.Workshop

/-!
The cache of views: what it holds, and what is done to it in one go. A view is known by its number.
A stored view is the entry of its key, and it is released when it is taken out. Whoever makes a
view for a key holds the slot of that key meanwhile.
-/

namespace CompiledViews

/-- What has happened so far. -/
structure Counts where
  hits : Nat := 0
  misses : Nat := 0
  compilations : Nat := 0
  failures : Nat := 0
  evictions : Nat := 0
  deriving Repr, DecidableEq

/-- The part of the lookups that were answered from an entry. -/
def Counts.hitRate (n : Counts) : String :=
  let lookups := n.hits + n.misses
  Decimal.fixed 6 n.hits (if lookups = 0 then 1 else lookups)

/-- Callers are numbered too. -/
abbrev Caller := Nat

/-- A slot is in the table once somebody has asked for it; its value is who holds it. -/
structure Cache where
  registry : Registry
  workshop : Workshop
  views : List View := []
  entries : Table Nat := {}
  slots : Table (Option Caller) := {}
  counts : Counts := {}

namespace Cache

/-- The entry of a key. -/
def entry? (c : Cache) (key : String) : Option Nat := c.entries.get? key

def contains (c : Cache) (path : String) : Bool := c.entries.contains (Path.normalizeLogical path)

/-- Who holds the slot of a key. -/
def holder? (c : Cache) (key : String) : Option Caller := (c.slots.get? key).join

def size (c : Cache) : Nat := c.entries.size

def paths (c : Cache) : List String := c.entries.keys

def count (c : Cache) (f : Counts → Counts) : Cache := { c with counts := f c.counts }

/-- Releases a view that has been made. -/
def release (c : Cache) (id : Nat) : Cache := { c with views := c.views.modify id View.release }

/-- Takes an entry out and releases it. -/
def evict (c : Cache) (key : String) : Option Nat × Cache :=
  match c.entry? key with
  | none => (none, c)
  | some id =>
    (some id, ({ c with entries := c.entries.erase key }.release id).count
      fun n => { n with evictions := n.evictions + 1 })

/-- Gives a view its number. -/
def keep (c : Cache) (v : View) : Nat × Cache :=
  (c.views.length, { c with views := c.views ++ [v] })

/-- Stores a view as the entry of a key, and releases one that it replaces. -/
def store (c : Cache) (key : String) (v : View) : Nat × Cache :=
  let (id, kept) := c.keep v
  let stored := { kept with entries := kept.entries.insert key id }
  match c.entry? key with
  | none => (id, stored)
  | some replaced => (id, stored.release replaced)

/-- Takes all entries out and releases them. -/
def clear (c : Cache) : Nat × Cache :=
  (c.size, (c.entries.values.foldl release { c with entries := {} }).count
    fun n => { n with evictions := n.evictions + c.size })

/-- Releases all entries when the cache goes away. -/
def drop (c : Cache) : Cache := c.entries.values.foldl release { c with entries := {} }

/-- Asks for the slot of a key. -/
def askSlot (c : Cache) (key : String) : Cache :=
  if c.slots.contains key then c else { c with slots := c.slots.insert key none }

def takeSlot (c : Cache) (key : String) (who : Caller) : Cache :=
  { c with slots := c.slots.insert key (some who) }

def freeSlot (c : Cache) (key : String) : Cache :=
  { c with slots := c.slots.insert key none }

/-- Opens the source of a key. -/
def openSource (c : Cache) (t : FileTree) (key : String) : Except ViewError Content :=
  match c.registry.lookup key with
  | none => .error ⟨key, .unknownSource⟩
  | some s => (s.open_ t).mapError fun e => ⟨key, .unreadable e.message⟩

/-- Makes a view of what the source yielded. -/
def make (c : Cache) (key : String) (content : Content) : Except ViewError View × Cache :=
  let (result, workshop) := c.workshop.make key content
  (result, { c with workshop := workshop })

/-- Makes a view of a path, without looking for it in the cache or storing it. -/
def compile (c : Cache) (t : FileTree) (path : String) : Except ViewError Nat × Cache :=
  let key := Path.normalizeLogical path
  match c.openSource t key with
  | .error e => (.error e, c)
  | .ok content =>
    match c.make key content with
    | (.error e, c) => (.error e, c)
    | (.ok v, c) =>
      let (id, c) := c.keep v
      (.ok id, c)

/-- The counts and the number of entries in one line. -/
def describeCounts (c : Cache) : String :=
  s!"CacheStats \x7b hits: {c.counts.hits}, misses: {c.counts.misses}, " ++
    s!"compilations: {c.counts.compilations}, failures: {c.counts.failures}, " ++
    s!"evictions: {c.counts.evictions}, entries: {c.size} \x7d"

def describe (c : Cache) : String :=
  s!"ViewCache \x7b entries: {Text.quoteAll c.paths}, stats: {c.describeCounts} \x7d"

end Cache

end CompiledViews
