import CompiledViews.Template.Helper

/-!
Rendering. A node is an action on the state of the rendering, built from the actions of its parts;
`run` ties the knot where a tag includes a partial.
-/

namespace CompiledViews.Template

/-- A failed rendering, with the place of the innermost tag that failed. -/
structure Failure where
  reason : Reason
  position : Option Position := none
  deriving Repr, DecidableEq

/-- What stays fixed while a template is rendered. -/
structure Scene where
  name : String
  model : Json
  nodes : List Node

/-- `fallbacks` are the bodies of the partial blocks around, `template` is the template whose top
level is being rendered, and `out` is the text so far, last piece first. -/
structure State where
  frames : List Frame := [{ }]
  partials : List (String × List Node) := []
  fallbacks : List (List Node) := []
  fallbackDepth : Nat := 0
  template : Option String := none
  indent : List Char := []
  atLineStart : Bool := false
  out : List String := []

/-- A step of a rendering. -/
def Action := State → Except Failure State

namespace Action

def skip : Action := .ok

def andThen (a b : Action) : Action := fun s => (a s).bind b

def fail (r : Reason) : Action := fun _ => .error ⟨r, none⟩

/-- Gives a failure of the action a place, unless it has one. -/
def located (p : Option Position) (a : Action) : Action := fun s =>
  match a s with
  | .error ⟨r, none⟩ => .error ⟨r, p⟩
  | result => result

/-- Puts the indent after each line break but the last character. -/
def indented (indent : List Char) : List Char → List Char
  | [] => []
  | [c] => [c]
  | c :: cs => if c = '\n' then c :: indent ++ indented indent cs else c :: indented indent cs

def isBreak (c : Char) : Bool := c = '\n' || c = '\r'

/-- Prints a text. Inside an indented partial, its lines are indented. -/
def write (text : String) : Action := fun s =>
  if text.isEmpty then .ok s
  else if s.indent.isEmpty then .ok { s with out := text :: s.out }
  else
    let cs := text.toList
    let first := if s.atLineStart && (cs.head?.map isBreak) ≠ some true then s.indent else []
    .ok { s with
      out := String.ofList (first ++ indented s.indent cs) :: s.out
      atLineStart := cs.getLast? = some '\n' }

/-- Goes on with what is computed from the state, which fails without a place. -/
def ask {α : Type} (f : State → Except Reason α) (k : α → Action) : Action := fun s =>
  match f s with
  | .ok a => k a s
  | .error r => .error ⟨r, none⟩

/-- Runs an action below a new frame. -/
def within (f : Frame) (a : Action) : Action := fun s =>
  (a { s with frames := f :: s.frames }).map fun s' => { s' with frames := s.frames }

/-- The body of a block, which is no longer the top level of a template. -/
def body (a : Action) : Action := fun s => a { s with template := none }

end Action

/-- The frame of one part of a value: below the place of the value, or of its own. -/
def Found.frame (f : Found) (part : List String) (value : Json) : Frame :=
  match f.place with
  | some place => { place := place ++ part }
  | none => { value := some value }

/-- What a block's name for a value stands for. -/
def Found.bound (f : Found) (value : Json) : Bound :=
  if f.place.isSome then .base else .value value

/-- The frame for one item of a collection, with its key. -/
def itemFrame (f : Found) (binder : Option Binder) (count i : Nat) (part : String)
    (key : Option String) (value : Json) : Frame :=
  let index : Json := .num (.int i)
  let names := match binder with
    | none => []
    | some b =>
      ((b.key.map fun k => (k, Bound.value ((key.map Json.str).getD index))).toList) ++
        [(b.value, f.bound value)]
  let locals := [("first", Json.bool (i = 0)), ("last", .bool (i + 1 = count)), ("index", index)]
    ++ (key.map fun k => ("key", Json.str k)).toList
  { f.frame [part] value with names := names, locals := locals }

/-- One frame for each item of a list, or each field of an object. -/
def itemFrames (f : Found) (binder : Option Binder) : List Frame :=
  match f.value with
  | .arr items =>
    items.zipIdx.map fun (v, i) =>
      itemFrame f binder items.length i (toString i) none v
  | .obj fields =>
    fields.zipIdx.map fun ((k, v), i) => itemFrame f binder fields.length i k (some k) v
  | _ => []

/-- Runs a helper whose arguments are accepted. -/
def Helper.run (h : Helper) (a : Args) (binder : Option Binder) (isBlock : Bool)
    (body : Action) (inverse : Action) : Action :=
  let first := a.params.head?.getD .missing
  match h with
  | .conditional expected =>
    let withZero := ((a.named? "includeZero").bind Json.bool?).getD false
    if first.value.holds withZero = expected then body else inverse
  | .each =>
    match itemFrames first binder with
    | [] => inverse
    | frames => frames.foldr (fun f rest => (Action.within f body).andThen rest) .skip
  | .scope =>
    if first.value.holds false then fun s =>
      let names := match binder with
        | some ⟨name, none⟩ => [(name, first.bound first.value)]
        | _ => []
      let f := { first.frame [] first.value with
        names := names
        locals := (s.frames.head?.map (·.locals)).getD [] }
      Action.within f body s
    else inverse
  | .raw => body
  | .log => .skip
  | h =>
    match h.truth? a with
    | some b => if isBlock then (if b then body else inverse) else .write (Json.bool b).shown
    | none => .write (h.result a).shown

/-- Calls the helper of a tag. -/
def callHelper (scene : Scene) (c : Call) (isBlock : Bool) (body inverse : Action) : Action :=
  .ask (fun s => do
    let name ← c.name.evalName scene.model s.frames
    let a ← c.evalArgs scene.model s.frames
    match Helper.ofName? name with
    | none => throw (.unknownHelper name)
    | some h =>
      h.accept a
      return (h, a))
  fun (h, a) => h.run a c.binder isBlock body inverse

/-- Prints the value of a tag. A name alone that is no helper's is a path. -/
def printValue (scene : Scene) (c : Call) : Action :=
  if c.args.isEmpty && c.named.isEmpty then
    .ask (fun s => c.name.evalName scene.model s.frames) fun name =>
      if (Helper.ofName? name).isSome then callHelper scene c false .skip .skip
      else .ask (fun s => c.name.eval scene.model s.frames) fun v => .write v.value.shown
  else callHelper scene c false .skip .skip

/-- Runs a decorator. The only one there is names its body as a partial. -/
def decorate (scene : Scene) (c : Call) (body : Option (List Node)) : Action :=
  .ask (fun s => do
    let name ← c.name.evalName scene.model s.frames
    let a ← c.evalArgs scene.model s.frames
    if name ≠ "inline" then throw (.unknownDecorator name)
    match a.params with
    | [] => throw (.missingParam "inline" 0)
    | f :: _ =>
      match f.value, body with
      | .str partialName, some nodes => return (partialName, nodes)
      | .str _, none => throw .missingBody
      | _, _ => throw (.badParam "String"))
  fun p s => .ok { s with partials := p :: s.partials }

/-- Runs the decorators among nodes. -/
def decorateAll (scene : Scene) : List Node → Action
  | [] => .skip
  | .decorator p c body :: nodes =>
    ((decorate scene c body).located (some p)).andThen (decorateAll scene nodes)
  | _ :: nodes => decorateAll scene nodes

/-- The name of the body that a partial block hands to its partial. -/
def fallbackName : String := "@partial-block"

/-- A partial with the name of the template it is, if it is one. -/
def findPartial (scene : Scene) (s : State) (name : String) (body : Option (List Node)) :
    Option (Option String × List Node) :=
  let inline := if name = fallbackName then s.fallbacks[s.fallbackDepth]?
    else (s.partials.find? (·.1 = name)).map (·.2)
  (inline.map (none, ·))
    <|> (if name = scene.name then some (some name, scene.nodes) else none)
    <|> (body.map (none, ·))

/-- The frames in which a partial is rendered. -/
def partialFrames (scene : Scene) (frames : List Frame) (a : Args) :
    Except Reason (List Frame) := do
  let place := a.params.head?.bind (·.place)
  let frames := match place with
    | some place => [{ place := place }]
    | none => frames
  if a.named.isEmpty then return frames
  let base ← findPath scene.model frames []
  let fields := match base.value with
    | .obj fields => fields
    | _ => []
  let merged := a.named.foldl (fun fields n => Json.insert fields n.1 n.2.value) fields
  let frame : Frame := if place.isSome then { } else frames.head?.getD { }
  return [{ frame with value := some (.obj merged) }]

/-- Renders a partial. Afterwards only the text has changed. -/
def expand (scene : Scene) (run : Option String → List Node → Action) (c : Call)
    (body : Option (List Node)) (indent : Option String) : Action :=
  .ask (fun s => do
    return (← c.name.evalName scene.model s.frames, ← c.evalArgs scene.model s.frames))
  fun (name, a) =>
    (decorateAll scene (body.getD [])).andThen fun s =>
      if s.template = some name then .error ⟨.selfInclusion, none⟩
      else match findPartial scene s name body with
        | none => .error ⟨.unknownPartial name, none⟩
        | some (template, nodes) =>
          match partialFrames scene s.frames a with
          | .error r => .error ⟨r, none⟩
          | .ok frames =>
            let inner := { s with
              frames := frames
              fallbacks := body.toList ++ s.fallbacks
              fallbackDepth :=
                if name = fallbackName then s.fallbackDepth + 1 else s.fallbackDepth - 1
              indent := s.indent ++ (indent.getD "").toList
              atLineStart := s.atLineStart && indent.isNone }
            (run template nodes inner).map fun s' =>
              { s with out := s'.out, atLineStart := s'.atLineStart }

mutual

/-- What a node does; `run` renders a partial. -/
def Node.action (scene : Scene) (run : Option String → List Node → Action) : Node → Action
  | .text s => .write s
  | .value p c => (printValue scene c).located (some p)
  | .block p c body inverse =>
    (callHelper scene c true (.body (nodesAction scene run body))
      (inverseAction scene run inverse)).located p
  | .decorator p c body => (decorate scene c body).located (some p)
  | .includePartial p c body indent => (expand scene run c body indent).located (some p)

def nodesAction (scene : Scene) (run : Option String → List Node → Action) : List Node → Action
  | [] => .skip
  | n :: ns => (n.action scene run).andThen (nodesAction scene run ns)

def inverseAction (scene : Scene) (run : Option String → List Node → Action) :
    Option (List Node) → Action
  | none => .skip
  | some ns => .body (nodesAction scene run ns)

end

/-- How deep partials may be nested. -/
def maxDepth : Nat := 200

/-- Renders the nodes of a template or of a partial. -/
def run (scene : Scene) : Nat → Option String → List Node → Action
  | 0, _, _ => .fail .tooDeep
  | depth + 1, template, nodes => fun s =>
    nodesAction scene (run scene depth) nodes { s with template := template }

/-- The text of a template for a model. -/
def render (name : String) (nodes : List Node) (model : Json) : Except Failure String :=
  let scene : Scene := ⟨name, model, nodes⟩
  (run scene maxDepth (some name) nodes { }).map fun s => String.join s.out.reverse

end CompiledViews.Template
