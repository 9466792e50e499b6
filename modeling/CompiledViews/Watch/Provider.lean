import CompiledViews.Watch.Pool

/-!
Watchers as references keep them in memory. A subscription holds a reference to its watcher, and so
does a call while it is at work. The provider that shares the watchers holds none, but knows where
it has put them; a watcher ends when the last reference to it is given back.
-/

namespace CompiledViews.Watch

/-- A watcher in memory, with the number of references to it. -/
structure Cell (α : Type) where
  references : Nat
  watcher : Watcher α

/-- What is at each place in memory, and the places where watchers were put, the oldest first. Some
of these may have ended. -/
@[ext]
structure Provider (α : Type) where
  memory : Nat → Option (Cell α) := fun _ => none
  known : List Nat := []

namespace Provider

variable {α : Type}

/-- The watchers that have not ended, among those that the provider knows. -/
def live (p : Provider α) : List (Nat × Watcher α) :=
  p.known.filterMap fun n => (p.memory n).map fun c => (n, c.watcher)

def put (p : Provider α) (place : Nat) (c : Option (Cell α)) : Provider α :=
  { p with memory := fun n => if n = place then c else p.memory n }

@[simp] theorem memory_put (p : Provider α) (place : Nat) (c : Option (Cell α)) (n : Nat) :
    (p.put place c).memory n = if n = place then c else p.memory n := rfl

@[simp] theorem known_put (p : Provider α) (place : Nat) (c : Option (Cell α)) :
    (p.put place c).known = p.known := rfl

/-- Takes a reference to a watcher. -/
def retain (p : Provider α) (place : Nat) : Provider α :=
  p.put place ((p.memory place).map fun c => { c with references := c.references + 1 })

/-- Gives a reference back. The watcher ends if it was the last one. -/
def release (p : Provider α) (place : Nat) : Provider α :=
  p.put place ((p.memory place).bind fun c =>
    if c.references ≤ 1 then none else some { c with references := c.references - 1 })

/-- Changes a watcher where it is. -/
def modify (p : Provider α) (place : Nat) (f : Watcher α → Watcher α) : Provider α :=
  p.put place ((p.memory place).map fun c => { c with watcher := f c.watcher })

/-- Forgets the watchers that have ended. -/
def prune (p : Provider α) : Provider α :=
  { p with known := p.known.filter fun n => (p.memory n).isSome }

/-- Looks among watchers for one that covers a file, and keeps a reference to it. The reference that
is taken to look at any other is given back. -/
def search (file : String) : List Nat → Provider α → Option Nat × Provider α
  | [], p => (none, p)
  | n :: ns, p =>
    match p.memory n with
    | none => search file ns p
    | some c =>
      if c.watcher.covers file then (some n, p.retain n)
      else search file ns ((p.retain n).release n)

/-- Puts a watcher at a place, with the one reference of the call that has started it. -/
def start (p : Provider α) (place : Nat) (w : Watcher α) : Provider α :=
  { p with known := p.known ++ [place] }.put place (some ⟨1, w⟩)

/-- A reference to a watcher that covers a file, or else to a new one, which is put at `place`. -/
def watcherFor (p : Provider α) (place : Nat) (t : FileTree) (root file : String) :
    Except SystemError Nat × Provider α :=
  match search file p.prune.known p.prune with
  | (some n, p) => (.ok n, p)
  | (none, p) =>
    match Watcher.start t root with
    | .error e => (.error e, p)
    | .ok w => (.ok place, p.start place w)

/-- Subscribes to a file. The subscription takes a reference of its own to the watcher, and the call
gives back the one that it has. -/
def watch (p : Provider α) (place : Nat) (t : FileTree) (root file logical : String)
    (listener : α) : Except WatchError Subscription × Provider α :=
  match p.watcherFor place t root file with
  | (.error e, p) => (.error (.unwatchable root e), p)
  | (.ok n, p) =>
    match (p.memory n).bind fun c => c.watcher.subscribe file logical listener with
    | none => (.error (.outsideRoot file root), p.release n)
    | some (key, id, w) => (.ok ⟨n, id, key⟩, ((p.modify n fun _ => w).retain n).release n)

/-- Ends a subscription, and gives back its reference. -/
def drop (p : Provider α) (s : Subscription) : Provider α :=
  (p.modify s.watcher fun w => w.unsubscribe s.key s.id).release s.watcher

end Provider

end CompiledViews.Watch
