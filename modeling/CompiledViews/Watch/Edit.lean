import CompiledViews.Watch.Pool

/-! Edits of files, and the events that watchers see of them. An edit of a file is seen under every
path through which its directory is watched. -/

namespace CompiledViews.Watch

inductive Edit where
  | write (file : String) (bytes : List UInt8)
  | remove (file : String)
  | rename (file newPath : String)
  | changeMode (file : String)
  | read (file : String)

namespace Edit

def apply (t : FileTree) : Edit → FileTree
  | .write file bytes => t.write file bytes
  | .remove file => t.remove file
  | .rename file newPath => t.rename file newPath
  | .changeMode _ | .read _ => t

/-- What happens to which places in the tree. -/
def touched (t : FileTree) : Edit → List (EventKind × Location)
  | .write file _ => [(if t.exists_ file then .modified else .created, t.target file)]
  | .remove file => [(.removed, t.entryLocation file)]
  | .rename file newPath => [(.modified, t.entryLocation file), (.modified, t.entryLocation newPath)]
  | .changeMode file => [(.metadata, t.target file)]
  | .read file => [(.other, t.target file)]

end Edit

/-- Whether a key leads to a place. It has to do so without a step up, and the last name is not
followed. -/
def leadsTo (t : FileTree) (place : Location) (key : Key) : Bool :=
  !key.contains .up && match key.getLast?, place.getLast? with
    | some (.name s), some last =>
      s = last && match t.follow key.dropLast with
        | .ok above => above = place.dropLast
        | .error _ => false
    | _, _ => false

/-- The events that a watcher sees of an edit, as far as anybody listens. -/
def Watcher.events {α : Type} (w : Watcher α) (t : FileTree) (e : Edit) : List Event :=
  (e.touched t).map fun (kind, place) =>
    ⟨kind, (w.subscribers.map (·.1)).filter (leadsTo t place)⟩

/-- Whom an edit is told to by all watchers. -/
def Pool.notice {α : Type} (p : Pool α) (t : FileTree) (e : Edit) : List (α × String) :=
  p.live.flatMap fun (_, w) => (w.events t e).flatMap w.dispatch

end CompiledViews.Watch
