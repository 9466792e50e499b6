/-!
The shortest decimal that reads back as a given binary floating point number, and its text.
-/

namespace CompiledViews.Decimal

/-- The number `mantissa * 2 ^ exponent`. `closeBelow` holds when the next smaller number is only
half as far away as the next larger one. -/
structure Binary where
  mantissa : Nat
  exponent : Int
  closeBelow : Bool
  deriving Repr

/-- The size of a finite double. -/
def Binary.ofFloat (x : Float) : Binary :=
  let bits := x.toBits.toNat
  let fraction : Nat := bits % Nat.pow 2 52
  let field : Nat := bits / Nat.pow 2 52 % Nat.pow 2 11
  if field = 0 then ⟨fraction, -1074, false⟩
  else ⟨Nat.pow 2 52 + fraction, field - 1075, fraction = 0 && 1 < field⟩

/-- The number `digits * 10 ^ exponent`. -/
structure Digits where
  digits : Nat
  exponent : Int
  deriving Repr

/-- The quarters `numerator` of the last binary place and the grid `10 ^ e`, on one scale. -/
def scales (b : Binary) (e : Int) : Nat × Nat :=
  let q := b.exponent - 2
  (Nat.pow 2 q.toNat * Nat.pow 10 (-e).toNat, Nat.pow 2 (-q).toNat * Nat.pow 10 e.toNat)

/-- Whether `k * 10 ^ e` reads back as `b`: it lies between the midpoints to the neighbours, which
belong to `b` when its mantissa is even. -/
def readsBack (b : Binary) (e : Int) (k : Nat) : Bool :=
  let (unit, grid) := scales b e
  let low := (4 * b.mantissa - if b.closeBelow then 1 else 2) * unit
  let high := (4 * b.mantissa + 2) * unit
  let point := k * grid
  if b.mantissa % 2 = 0 then low ≤ point && point ≤ high else low < point && point < high

/-- The point of the grid `10 ^ e` nearest to `b` among those that read back; a tie goes to the
even one. -/
def onGrid (b : Binary) (e : Int) : Option Nat :=
  let (unit, grid) := scales b e
  let value := 4 * b.mantissa * unit
  let k := value / grid
  match 0 < k && readsBack b e k, readsBack b e (k + 1) with
  | true, true =>
    let below := value - k * grid
    let above := (k + 1) * grid - value
    if below < above || (below = above && k % 2 = 0) then some k else some (k + 1)
  | true, false => some k
  | false, true => some (k + 1)
  | false, false => none

/-- Searches the grids from `10 ^ e` downwards, `n` of them. -/
def search (b : Binary) (e : Int) : Nat → Digits
  | 0 => ⟨0, 0⟩
  | n + 1 =>
    match onGrid b e with
    | some k => ⟨k, e⟩
    | none => search b (e - 1) n

/-- The fewest digits that read back. Seventeen always do, so the search is short. -/
def shortest (b : Binary) : Digits :=
  let magnitude : Int := (b.mantissa.log2 + 1 : Nat) + b.exponent
  search b (magnitude * 30103 / 100000 + 2) 24

/-- Digits without the zeros at their end, `n` of which are looked for. -/
def Digits.strip (d : Digits) : Nat → Digits
  | 0 => d
  | n + 1 => if d.digits ≠ 0 ∧ d.digits % 10 = 0 then Digits.strip ⟨d.digits / 10, d.exponent + 1⟩ n
    else d

/-- Where positional notation begins and ends, as powers of ten. -/
structure Style where
  positionalFrom : Int
  positionalBelow : Int

/-- Positional notation is used from `10 ^ -5` up to `10 ^ 16`. -/
def modelNumber : Style := ⟨-5, 16⟩

/-- The text of digits: positional with at least one place after the point, or with an exponent
that carries its sign. -/
def Digits.text (d : Digits) (style : Style) : String :=
  let cs := (Nat.toDigits 10 d.digits)
  let length : Int := cs.length
  let point := length + d.exponent
  let zeros (n : Int) : List Char := List.replicate n.toNat '0'
  String.ofList <|
    if 0 ≤ d.exponent && point ≤ style.positionalBelow then
      cs ++ zeros d.exponent ++ ['.', '0']
    else if 0 < point && point ≤ style.positionalBelow then
      cs.take point.toNat ++ ['.'] ++ cs.drop point.toNat
    else if style.positionalFrom < point && point ≤ 0 then
      ['0', '.'] ++ zeros (-point) ++ cs
    else
      let fraction := if cs.length = 1 then [] else '.' :: cs.drop 1
      let e := point - 1
      cs.take 1 ++ fraction ++ ['e', if e < 0 then '-' else '+'] ++ Nat.toDigits 10 e.natAbs

/-- The text of a finite double. -/
def ofFloat (x : Float) : String :=
  let sign := if x.toBits.toNat / Nat.pow 2 63 = 1 then "-" else ""
  let b := Binary.ofFloat x
  if b.mantissa = 0 then sign ++ "0.0"
  else sign ++ ((shortest b).strip 20).text modelNumber

end CompiledViews.Decimal
