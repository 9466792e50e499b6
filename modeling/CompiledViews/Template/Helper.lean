import CompiledViews.Template.Context

/-! The helpers that templates may call, and the value of an expression. -/

namespace CompiledViews.Template

inductive Comparison where
  | eq | ne | gt | gte | lt | lte
  deriving Repr, DecidableEq

def Comparison.test (c : Comparison) (x y : Json) : Bool :=
  let ordered (accepts : Ordering → Bool) := ((x.order? y).map accepts).getD false
  match c with
  | .eq => x.same y
  | .ne => !x.same y
  | .gt => ordered (· = .gt)
  | .gte => ordered (· ≠ .lt)
  | .lt => ordered (· = .lt)
  | .lte => ordered (· ≠ .gt)

inductive Helper where
  | conditional (expected : Bool)
  | each
  | scope
  | raw
  | log
  | lookup
  | length
  | negation
  | both
  | either
  | compare (c : Comparison)
  deriving Repr, DecidableEq

def Helper.ofName? : String → Option Helper
  | "if" => some (.conditional true)
  | "unless" => some (.conditional false)
  | "each" => some .each
  | "with" => some .scope
  | "raw" => some .raw
  | "log" => some .log
  | "lookup" => some .lookup
  | "len" => some .length
  | "not" => some .negation
  | "and" => some .both
  | "or" => some .either
  | "eq" => some (.compare .eq)
  | "ne" => some (.compare .ne)
  | "gt" => some (.compare .gt)
  | "gte" => some (.compare .gte)
  | "lt" => some (.compare .lt)
  | "lte" => some (.compare .lte)
  | _ => none

/-- The name by which a helper complains. -/
def Helper.name : Helper → String
  | .conditional _ => "if"
  | .each => "each"
  | .scope => "with"
  | .raw => "raw"
  | .log => "log"
  | .lookup => "lookup"
  | .length => "len"
  | .negation => "not"
  | .both => "and"
  | .either => "or"
  | .compare .eq => "eq"
  | .compare .ne => "ne"
  | .compare .gt => "gt"
  | .compare .gte => "gte"
  | .compare .lt => "lt"
  | .compare .lte => "lte"

/-- How many arguments a helper needs. -/
def Helper.arity : Helper → Nat
  | .raw | .log => 0
  | .conditional _ | .each | .scope | .length | .negation => 1
  | .lookup | .both | .either | .compare _ => 2

/-- Arguments with their values. -/
structure Args where
  params : List Found := []
  named : List (String × Found) := []

def Args.param (a : Args) (i : Nat) : Json := (a.params[i]?.map (·.value)).getD .null

def Args.named? (a : Args) (name : String) : Option Json :=
  (a.named.reverse.find? (·.1 = name)).map (·.2.value)

def isLevel (s : String) : Bool :=
  ["error", "warn", "info", "debug", "trace"].contains (String.ofList (s.toList.map Char.toLower))

/-- Checks the arguments of a helper. -/
def Helper.accept (h : Helper) (a : Args) : Except Reason Unit :=
  if a.params.length < h.arity then
    if h = .length then .error (.missingNamedParam "len" "x")
    else .error (.missingParam h.name a.params.length)
  else if h = .log then
    let level := ((a.named? "level").bind Json.string?).getD "info"
    if isLevel level then .ok () else .error (.badLevel level)
  else .ok ()

/-- The number of parts of a value: items, fields, or bytes of text. -/
def sizeOfValue : Json → Nat
  | .arr items => items.length
  | .obj fields => fields.length
  | .str s => s.utf8ByteSize
  | _ => 0

def lookupIn (collection key : Json) : Json :=
  match collection with
  | .arr items => (key.nat?.bind fun i => items[i]?).getD .null
  | .obj fields => (key.string?.bind fun k => Json.field? fields k).getD .null
  | _ => .null

/-- The truth that a helper of truths yields. -/
def Helper.truth? (h : Helper) (a : Args) : Option Bool :=
  match h with
  | .negation => some (!(a.param 0).holds false)
  | .both => some ((a.param 0).holds false && (a.param 1).holds false)
  | .either => some ((a.param 0).holds false || (a.param 1).holds false)
  | .compare c => some (c.test (a.param 0) (a.param 1))
  | _ => none

/-- The value of a call inside an expression. A helper that only renders blocks yields no text. -/
def Helper.result (h : Helper) (a : Args) : Json :=
  match h with
  | .lookup => lookupIn (a.param 0) (a.param 1)
  | .length => .num (.int (sizeOfValue (a.param 0)))
  | h =>
    match h.truth? a with
    | some b => .bool b
    | none => .str ""

mutual

/-- The value of an expression. -/
def Expr.eval (model : Json) (frames : List Frame) : Expr → Except Reason Found
  | .word _ => .ok .missing
  | .unreadable _ => .ok .missing
  | .path p => findPath model frames p.steps
  | .literal v => .ok ⟨v, none⟩
  | .call name args named => do
    let name ← name.evalName model frames
    let a : Args := ⟨← evalAll model frames args, ← evalNamed model frames named⟩
    match Helper.ofName? name with
    | none => throw (.unknownHelper name)
    | some h =>
      h.accept a
      return ⟨h.result a, none⟩

/-- The text of an expression that stands as a name. -/
def Expr.evalName (model : Json) (frames : List Frame) : Expr → Except Reason String
  | .word name => .ok name
  | .path p => .ok p.spelling
  | .unreadable spelling => .ok spelling
  | .literal v => .ok v.shown
  | .call name args named => do
    let name ← name.evalName model frames
    let a : Args := ⟨← evalAll model frames args, ← evalNamed model frames named⟩
    match Helper.ofName? name with
    | none => throw (.unknownHelper name)
    | some h =>
      h.accept a
      return (h.result a).shown

def evalAll (model : Json) (frames : List Frame) : List Expr → Except Reason (List Found)
  | [] => .ok []
  | e :: es => do return (← e.eval model frames) :: (← evalAll model frames es)

def evalNamed (model : Json) (frames : List Frame) :
    List (String × Expr) → Except Reason (List (String × Found))
  | [] => .ok []
  | (name, e) :: es => do
    return (name, ← e.eval model frames) :: (← evalNamed model frames es)

end

/-- The values of the arguments of a tag. -/
def Call.evalArgs (model : Json) (frames : List Frame) (c : Call) : Except Reason Args := do
  return ⟨← evalAll model frames c.args, ← evalNamed model frames c.named⟩

end CompiledViews.Template
