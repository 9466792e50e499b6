import CompiledViews.Files.Tree

/-!
Watchers of directories. Whoever subscribes to a file below the directory is told of its changes,
until the subscription ends. What is told, and to whom, is a list of calls.
-/

namespace CompiledViews.Watch

/-- The components of the full path of a file. -/
abbrev Key := List Path.Component

inductive EventKind where
  | created
  | modified
  | metadata
  | removed
  | other
  deriving Repr, DecidableEq

/-- Whether an event can mean that a template has changed. -/
def EventKind.isChange : EventKind → Bool
  | .created | .modified | .removed => true
  | .metadata | .other => false

structure Event where
  kind : EventKind
  paths : List Key
  deriving Repr, DecidableEq

/-- One who listens for the changes of a file, which has a name of its own for him. -/
structure Subscriber (α : Type) where
  id : Nat
  logical : String
  listener : α
  deriving Repr, DecidableEq

/-- A watcher of a directory, which is given as `root`. The subscribers to a file stand in the order
in which they came. -/
structure Watcher (α : Type) where
  root : String
  canonical : Key
  subscribers : List (Key × List (Subscriber α)) := []
  nextId : Nat := 0
  deriving Repr, DecidableEq

namespace Watcher

variable {α : Type}

/-- Starts to watch a directory, by the path that leads to it from the root of all files. -/
def start (t : FileTree) (root : String) : Except SystemError (Watcher α) := do
  let location ← t.canonicalize root
  return { root := root, canonical := rooted location }

/-- The key of a file, if it is below the directory by its path. -/
def key? (w : Watcher α) (file : String) : Option Key :=
  let cs := Path.components file
  ((Path.stripComponents (Path.components w.root) cs).or
    (Path.stripComponents w.canonical cs)).map (w.canonical ++ ·)

def covers (w : Watcher α) (file : String) : Bool := (w.key? file).isSome

/-- The subscribers to a file. -/
def subscribersTo (w : Watcher α) (key : Key) : List (Subscriber α) :=
  ((w.subscribers.find? (·.1 = key)).map (·.2)).getD []

/-- Adds a subscriber to those of a file. -/
def addTo (key : Key) (s : Subscriber α) :
    List (Key × List (Subscriber α)) → List (Key × List (Subscriber α))
  | [] => [(key, [s])]
  | (k, ss) :: rest => if k = key then (k, ss ++ [s]) :: rest else (k, ss) :: addTo key s rest

/-- Takes a subscriber away. A file without any is not listed. -/
def removeFrom (key : Key) (id : Nat) :
    List (Key × List (Subscriber α)) → List (Key × List (Subscriber α))
  | [] => []
  | (k, ss) :: rest =>
    if k = key then
      let left := ss.filter (·.id ≠ id)
      if left.isEmpty then rest else (k, left) :: rest
    else (k, ss) :: removeFrom key id rest

/-- Subscribes to a file under a new number, unless it is not below the directory. -/
def subscribe (w : Watcher α) (file logical : String) (listener : α) :
    Option (Key × Nat × Watcher α) :=
  (w.key? file).map fun key =>
    (key, w.nextId, { w with
      subscribers := addTo key ⟨w.nextId, logical, listener⟩ w.subscribers
      nextId := w.nextId + 1 })

def unsubscribe (w : Watcher α) (key : Key) (id : Nat) : Watcher α :=
  { w with subscribers := removeFrom key id w.subscribers }

/-- How many files have subscribers. -/
def watchedFiles (w : Watcher α) : Nat := w.subscribers.length

/-- Whom an event is told to, and under which name. -/
def dispatch (w : Watcher α) (e : Event) : List (α × String) :=
  if e.kind.isChange then
    e.paths.flatMap fun p => (w.subscribersTo p).map fun s => (s.listener, s.logical)
  else []

end Watcher

end CompiledViews.Watch
