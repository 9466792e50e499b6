import CompiledViews.Template.Syntax
import CompiledViews.Template.Value

/-!
Where the paths of a template lead. The blocks around a tag are frames; each has a base, which is a
place in the model or a value of its own, and may name its value and hold variables.
-/

namespace CompiledViews.Template

/-- Why a template cannot be rendered. -/
inductive Reason where
  | missingParam (helper : String) (index : Nat)
  | missingNamedParam (helper : String) (param : String)
  | unknownHelper (name : String)
  | unknownDecorator (name : String)
  | unknownPartial (name : String)
  | selfInclusion
  | badIndex (name : String)
  | badLevel (level : String)
  | badParam (expected : String)
  | missingBody
  | tooDeep
  deriving Repr, DecidableEq

def Reason.message : Reason → String
  | .missingParam helper index =>
    s!"Helper/Decorator {helper} param at index {index} required but not found"
  | .missingNamedParam helper param =>
    s!"Helper/Decorator {helper} param with name {param} required but not found"
  | .unknownHelper name => s!"Helper not found {name}"
  | .unknownDecorator name => s!"Decorator not found {name}"
  | .unknownPartial name => s!"Partial not found {name}"
  | .selfInclusion => "Cannot include self in partial"
  | .badIndex name => s!"Cannot access array/vector with string index, {name}"
  | .badLevel level => s!"Invalid logging level: {level}"
  | .badParam expected => s!"Invalid param type, {expected} expected"
  | .missingBody => "Block content required"
  | .tooDeep => "Partials are nested too deeply"

/-- A value with its place in the model, if it has one there. -/
structure Found where
  value : Json
  place : Option (List String)

/-- What is found where nothing is. -/
def Found.missing : Found := ⟨.null, none⟩

/-- What a name that a block gives stands for: the base of the block, or a value. -/
inductive Bound where
  | base
  | value (v : Json)

structure Frame where
  place : List String := []
  value : Option Json := none
  names : List (String × Bound) := []
  locals : List (String × Json) := []

/-- An index in decimal, below `2 ^ 64`. -/
def index? (s : String) : Option Nat :=
  let digits := match s.toList with
    | '+' :: cs => cs
    | cs => cs
  if digits.isEmpty || !digits.all Char.isDigit then none
  else
    let n := Decimal.digitsValue digits
    if n < Nat.pow 2 64 then some n else none

/-- The part of a value that a name picks, if there is one. -/
def pick (j : Json) (name : String) : Except Reason (Option Json) :=
  match j with
  | .arr items =>
    match index? name with
    | some i => .ok items[i]?
    | none => .error (.badIndex name)
  | .obj fields => .ok (Json.field? fields name)
  | _ => .ok none

def descend : Option Json → List String → Except Reason (Option Json)
  | j, [] => .ok j
  | none, _ => .ok none
  | some j, name :: names => do descend (← pick j name) names

def fieldNames (steps : List Step) : List String :=
  steps.filterMap fun
    | .field name => some name
    | _ => none

/-- The value at a place in the model. -/
def foundAt (model : Json) (place : List String) : Except Reason Found := do
  match ← descend (some model) place with
  | some v => return ⟨v, some place⟩
  | none => return .missing

/-- The value some fields below the base of a frame. -/
def Frame.below (model : Json) (f : Frame) (names : List String) : Except Reason Found :=
  match f.value with
  | some v => do return ⟨(← descend (some v) names).getD .null, none⟩
  | none => foundAt model (f.place ++ names)

/-- The innermost block that gives a name, with what it stands for. -/
def boundIn? (frames : List Frame) (name : String) : Option (Frame × Bound) :=
  frames.findSome? fun f => (f.names.find? (·.1 = name)).map fun b => (f, b.2)

/-- The value that a path leads to from the innermost frame. -/
def findPath (model : Json) (frames : List Frame) (steps : List Step) : Except Reason Found :=
  let front := frames.head?.getD { }
  match steps with
  | .root :: rest => foundAt model (fieldNames rest)
  | .variable :: rest =>
    let level := (rest.takeWhile (· = .up)).length
    match rest.drop level with
    | .field name :: _ =>
      .ok ⟨(frames[level]?.bind fun f => Json.field? f.locals name).getD .null, none⟩
    | _ => front.below model (fieldNames rest)
  | steps =>
    let level := (steps.takeWhile (· = .up)).length
    match steps.drop level with
    | .field name :: rest =>
      match boundIn? frames name with
      | some (_, .value v) => do
        return ⟨(← descend (some v) (fieldNames rest)).getD .null, none⟩
      | some (f, .base) => foundAt model (f.place ++ fieldNames rest)
      | none => (frames[level]?.getD front).below model (name :: fieldNames rest)
    | _ => (frames[level]?.getD front).below model (fieldNames steps)

end CompiledViews.Template
