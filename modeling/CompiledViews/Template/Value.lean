import CompiledViews.Json.Writer
import CompiledViews.Decimal.Reading

/-! How a template sees values: the text they print, whether they hold, and their order. -/

namespace CompiledViews.Json

mutual

/-- The text a value prints. Null prints nothing, and an object only says that it is one. -/
def shown : Json → String
  | .null => ""
  | .bool b => if b then "true" else "false"
  | .num n => n.text
  | .str s => s
  | .arr items => "[" ++ ", ".intercalate (shownItems items) ++ "]"
  | .obj _ => "[object]"

def shownItems : List Json → List String
  | [] => []
  | item :: items => item.shown :: shownItems items

end

@[simp] theorem shown_str (s : String) : (Json.str s).shown = s := by simp [shown]

@[simp] theorem shown_null : Json.null.shown = "" := by simp [shown]

/-- The smallest double that is not subnormal. -/
def leastNormal : Float := Float.ofBits 0x0010000000000000

/-- A double that is neither zero nor subnormal, and finite. -/
def isNormal (x : Float) : Bool := x.isFinite && leastNormal ≤ x.abs

/-- Whether a value holds. Zero holds only if it is asked for. -/
def holds (withZero : Bool) : Json → Bool
  | .null => false
  | .bool b => b
  | .num n => if withZero then !n.toFloat.isNaN else isNormal n.toFloat
  | .str s => !s.isEmpty
  | .arr items => !items.isEmpty
  | .obj fields => !fields.isEmpty

def compareFloats (x y : Float) : Option Ordering :=
  if x < y then some .lt else if x == y then some .eq else if y < x then some .gt else none

/-- The order of numbers, of strings, and of a number and a string that spells one. -/
def order? : Json → Json → Option Ordering
  | .num x, .num y => compareFloats x.toFloat y.toFloat
  | .str x, .str y => some (if x < y then .lt else if x = y then .eq else .gt)
  | .num x, .str y => (Decimal.float? y).bind fun y => compareFloats x.toFloat y
  | .str x, .num y => (Decimal.float? x).bind fun x => compareFloats x y.toFloat
  | _, _ => none

end CompiledViews.Json
