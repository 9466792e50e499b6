import CompiledViews.Watch.Watcher

/-! The watchers in use. Each is shared by the files that it covers, and ends with the last
subscription on it. -/

namespace CompiledViews.Watch

/-- A subscription that has not ended. -/
structure Subscription where
  watcher : Nat
  id : Nat
  key : Key
  deriving Repr, DecidableEq

inductive WatchError where
  | unwatchable (root : String) (error : SystemError)
  | outsideRoot (file root : String)
  deriving Repr, DecidableEq

def WatchError.message : WatchError → String
  | .unwatchable root error => s!"failed to watch '{root}': {error.message}"
  | .outsideRoot file root => s!"{file} is not under template root {root}"

/-- The live watchers under their numbers, in the order in which they were started. -/
structure Pool (α : Type) where
  live : List (Nat × Watcher α) := []
  started : Nat := 0
  deriving Repr, DecidableEq

namespace Pool

variable {α : Type}

/-- Subscribes to a file, on the first live watcher that covers it or else on a new one. -/
def watch (p : Pool α) (t : FileTree) (root file logical : String) (listener : α) :
    Except WatchError (Subscription × Pool α) :=
  match p.live.findSome? fun (n, w) => (w.subscribe file logical listener).map (n, ·) with
  | some (n, key, id, w) =>
    .ok (⟨n, id, key⟩, { p with live := p.live.map fun e => if e.1 = n then (n, w) else e })
  | none =>
    match Watcher.start t root with
    | .error e => .error (.unwatchable root e)
    | .ok w =>
      match w.subscribe file logical listener with
      | none => .error (.outsideRoot file root)
      | some (key, id, w) =>
        .ok (⟨p.started, id, key⟩, ⟨p.live ++ [(p.started, w)], p.started + 1⟩)

/-- Ends a subscription, and its watcher if that was the last one. -/
def drop (p : Pool α) (s : Subscription) : Pool α :=
  { p with live := p.live.filterMap fun (n, w) =>
      if n = s.watcher then
        let left := w.unsubscribe s.key s.id
        if left.watchedFiles = 0 then none else some (n, left)
      else some (n, w) }

/-- Whom an event is told to by all watchers. -/
def dispatch (p : Pool α) (e : Event) : List (α × String) :=
  p.live.flatMap fun (_, w) => w.dispatch e

def describe (p : Pool α) : String :=
  s!"DiskFileProvider \x7b watchers: {p.live.length} \x7d"

end Pool

end CompiledViews.Watch
