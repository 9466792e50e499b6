import CompiledViews.Cache.Call

/-!
Clients that share a cache, and the loop that invalidates what has changed. Whatever order the
steps are taken in is a run of the machine. The first client is the loop's: it takes the changed
paths from a queue, all that are there at once, and invalidates each of them, in their order.
-/

namespace CompiledViews

/-- The different paths of a batch, in order. -/
def distinctPaths (paths : List String) : List String :=
  (Table.ofRows (paths.map (·, ()))).keys

/-- The requests for a batch of changed paths. -/
def invalidations (paths : List String) : List Request :=
  (distinctPaths paths).map .invalidate

/-- The loop has received nothing yet, or the first path of its next batch. -/
inductive Loop where
  | idle
  | gathering (first : String)
  deriving Repr, DecidableEq

structure Machine where
  files : FileTree
  cache : Cache
  queue : List String := []
  loop : Loop := .idle
  clients : List Client := [{ todo := [] }]

inductive Action where
  | call (requests : List Request)
  | advance (who : Caller)
  | edit (files : FileTree)
  | notify (path : String)
  | receive
  | drain

namespace Machine

/-- Whether the client of the loop has nothing left to do. -/
def isIdle (m : Machine) : Bool := (m.clients[0]?.map (·.todo.isEmpty)).getD false

/-- Takes an action, if it can be taken. -/
def act (m : Machine) : Action → Option Machine
  | .call requests => some { m with clients := m.clients ++ [{ todo := requests }] }
  | .advance who => do
    let (client, cache) ← (← m.clients[who]?).advance m.files who m.cache
    return { m with cache := cache, clients := m.clients.set who client }
  | .edit files => some { m with files := files }
  | .notify path => some { m with queue := m.queue ++ [path] }
  | .receive =>
    match m.loop, m.isIdle, m.queue with
    | .idle, true, first :: rest => some { m with loop := .gathering first, queue := rest }
    | _, _, _ => none
  | .drain =>
    match m.loop with
    | .idle => none
    | .gathering first =>
      some { m with
        loop := .idle
        queue := []
        clients := m.clients.modify 0 fun cl =>
          { cl with todo := invalidations (first :: m.queue) } }

/-- Takes actions one after the other. -/
def run (m : Machine) : List Action → Option Machine
  | [] => some m
  | a :: as => (m.act a).bind (·.run as)

end Machine

end CompiledViews
