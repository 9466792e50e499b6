import CompiledViews.Cache.Basic

/-!
Calls on the cache, one step after the other. A step is what is done in one go: under the lock of
the entries, at the slot of a key, when a source is opened, or when a view has been made. Between
the steps of one call there may be steps of others.
-/

namespace CompiledViews

inductive Request where
  | lookup (path : String)
  | invalidate (path : String)
  | render (path : String) (model : Json)
  | get (path : String)
  | clear
  deriving Repr

inductive Answer where
  | view (id : Nat)
  | nothing
  | text (s : String)
  | cleared (entries : Nat)
  | error (e : ViewError)
  deriving Repr, DecidableEq

def Answer.isError : Answer → Bool
  | .error _ => true
  | _ => false

/-- How far a call has come. From `holding` up to `leaving` it has the slot of its key; `evicted`
tells whether it has taken out an entry before it came to the slot. -/
inductive Stage where
  | start
  | waiting (evicted : Bool)
  | holding (evicted : Bool)
  | opening
  | making (opened : Except ViewError Content)
  | storing (view : View)
  | leaving (answer : Answer)
  | rendering (id : Nat)

/-- What a step leads to. -/
inductive Outcome where
  | blocked
  | going (stage : Stage) (c : Cache)
  | finished (answer : Answer) (c : Cache)

namespace Cache

def hit (c : Cache) : Cache := c.count fun n => { n with hits := n.hits + 1 }

def miss (c : Cache) : Cache := c.count fun n => { n with misses := n.misses + 1 }

/-- Asks for the slot of a key, if there is a source for it. -/
def approach (c : Cache) (key : String) (evicted : Bool) : Outcome :=
  if c.registry.contains key then .going (.waiting evicted) (c.askSlot key)
  else .finished (.error ⟨key, .unknownSource⟩) c

/-- The steps of a call that has or wants the slot of a key; `again` looks at the entries once the
slot is held, and says what to do. -/
def workStep (c : Cache) (t : FileTree) (who : Caller) (key : String)
    (again : Bool → Cache → Stage × Cache) : Stage → Outcome
  | .waiting evicted =>
    match c.holder? key with
    | some _ => .blocked
    | none => .going (.holding evicted) (c.takeSlot key who)
  | .holding evicted =>
    let (stage, c) := again evicted c
    .going stage c
  | .opening => .going (.making (c.openSource t key)) c
  | .making (.error e) =>
    .going (.leaving (.error e)) (c.count fun n => { n with failures := n.failures + 1 })
  | .making (.ok content) =>
    match c.make key content with
    | (.error e, c) =>
      .going (.leaving (.error e)) (c.count fun n => { n with failures := n.failures + 1 })
    | (.ok v, c) =>
      .going (.storing v) (c.count fun n => { n with compilations := n.compilations + 1 })
  | .storing v =>
    let (id, c) := c.store key v
    .going (.leaving (.view id)) c
  | .leaving answer => .finished answer (c.freeSlot key)
  | .start | .rendering _ => .blocked

/-- A lookup answers from the entry of its key; without one it makes a view. -/
def lookupStep (c : Cache) (t : FileTree) (who : Caller) (key : String) : Stage → Outcome
  | .start =>
    match c.entry? key with
    | some id => .finished (.view id) c.hit
    | none => c.approach key false
  | stage => c.workStep t who key (fun _ c =>
      match c.entry? key with
      | some id => (.leaving (.view id), c.hit)
      | none => (.opening, c.miss)) stage

/-- An invalidation makes a new view if it took an entry out, at once or when it came to the slot.
If somebody else has stored one since, that one will do. -/
def invalidateStep (c : Cache) (t : FileTree) (who : Caller) (key : String) : Stage → Outcome
  | .start =>
    match c.evict key with
    | (some _, c) => c.approach key true
    | (none, c) =>
      if c.registry.contains key then c.approach key false else .finished .nothing c
  | stage => c.workStep t who key (fun evicted c =>
      if evicted then
        match c.entry? key with
        | some id => (.leaving (.view id), c)
        | none => (.opening, c)
      else match c.evict key with
        | (some _, c) => (.opening, c)
        | (none, c) => (.leaving .nothing, c)) stage

/-- Renders a view that was found before. -/
def renderFound (c : Cache) (id : Nat) (model : Json) : Answer :=
  match c.views[id]? with
  | none => .nothing
  | some v =>
    match v.render model with
    | .ok s => .text s
    | .error e => .error ⟨v.path, .notRendered e⟩

/-- The next step of a call. -/
def step (c : Cache) (t : FileTree) (who : Caller) : Request → Stage → Outcome
  | .lookup path, stage => c.lookupStep t who (Path.normalizeLogical path) stage
  | .invalidate path, stage => c.invalidateStep t who (Path.normalizeLogical path) stage
  | .render _ model, .rendering id => .finished (c.renderFound id model) c
  | .render path _, stage =>
    match c.lookupStep t who (Path.normalizeLogical path) stage with
    | .finished (.view id) c => .going (.rendering id) c
    | outcome => outcome
  | .get path, .start =>
    .finished (((c.entry? (Path.normalizeLogical path)).map Answer.view).getD .nothing) c
  | .clear, .start =>
    let (n, c) := c.clear
    .finished (.cleared n) c
  | .get _, _ | .clear, _ => .blocked

end Cache

/-- A client makes its requests one after the other. -/
structure Client where
  todo : List Request
  stage : Stage := .start
  answers : List Answer := []

/-- Takes the next step of a client, unless it is done or has to wait. -/
def Client.advance (cl : Client) (t : FileTree) (who : Caller) (c : Cache) :
    Option (Client × Cache) :=
  match cl.todo with
  | [] => none
  | request :: rest =>
    match c.step t who request cl.stage with
    | .blocked => none
    | .going stage c => some ({ cl with stage := stage }, c)
    | .finished answer c => some (⟨rest, .start, cl.answers ++ [answer]⟩, c)

namespace Cache

/-- No request takes more steps than this. -/
def maxSteps : Nat := 9

/-- Takes so many steps of a client that has the cache for itself. -/
def runAlone (t : FileTree) : Nat → Client → Cache → Client × Cache
  | 0, cl, c => (cl, c)
  | fuel + 1, cl, c =>
    match cl.advance t 0 c with
    | none => (cl, c)
    | some (cl, c) => runAlone t fuel cl c

/-- Answers requests one after the other. -/
def serve (c : Cache) (t : FileTree) (requests : List Request) : List Answer × Cache :=
  let (cl, c) := runAlone t (maxSteps * requests.length) { todo := requests } c
  (cl.answers, c)

end Cache

end CompiledViews
