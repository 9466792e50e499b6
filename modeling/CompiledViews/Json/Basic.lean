/-! JSON values. The fields of an object are kept in the order of their names. -/

namespace CompiledViews

/-- A number is an integer in the range of 64 bits, signed or unsigned, or a double. -/
inductive Json.Number where
  | int (n : Int)
  | float (x : Float)
  deriving Repr, BEq

inductive Json where
  | null
  | bool (b : Bool)
  | num (n : Json.Number)
  | str (s : String)
  | arr (items : List Json)
  | obj (fields : List (String × Json))
  deriving Repr, Inhabited

namespace Json

def Number.toFloat : Number → Float
  | .int n => Float.ofInt n
  | .float x => x

/-- The value stored under a name. -/
def field? (fields : List (String × Json)) (name : String) : Option Json :=
  (fields.find? fun f => f.1 = name).map (·.2)

/-- Stores a value under a name, in the place that the order of names gives it. -/
def insert (fields : List (String × Json)) (name : String) (value : Json) : List (String × Json) :=
  match fields with
  | [] => [(name, value)]
  | (k, v) :: rest =>
    if name = k then (name, value) :: rest
    else if name < k then (name, value) :: (k, v) :: rest
    else (k, v) :: insert rest name value

/-- An object of the given fields; a later value replaces an earlier one of the same name. -/
def object (fields : List (String × Json)) : Json :=
  .obj (fields.foldl (fun acc f => insert acc f.1 f.2) [])

def get? (j : Json) (name : String) : Option Json :=
  match j with
  | .obj fields => field? fields name
  | _ => none

def string? : Json → Option String
  | .str s => some s
  | _ => none

def bool? : Json → Option Bool
  | .bool b => some b
  | _ => none

def items? : Json → Option (List Json)
  | .arr items => some items
  | _ => none

def nat? : Json → Option Nat
  | .num (.int (.ofNat n)) => some n
  | _ => none

mutual

/-- Equality of values. An integer never equals a double. -/
def same : Json → Json → Bool
  | .null, .null => true
  | .bool a, .bool b => a == b
  | .num a, .num b => a == b
  | .str a, .str b => a == b
  | .arr xs, .arr ys => sameItems xs ys
  | .obj xs, .obj ys => sameFields xs ys
  | _, _ => false

def sameItems : List Json → List Json → Bool
  | [], [] => true
  | x :: xs, y :: ys => same x y && sameItems xs ys
  | _, _ => false

def sameFields : List (String × Json) → List (String × Json) → Bool
  | [], [] => true
  | (a, x) :: xs, (b, y) :: ys => a == b && same x y && sameFields xs ys
  | _, _ => false

end

end Json

end CompiledViews
