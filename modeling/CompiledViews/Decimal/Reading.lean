/-! Reading decimals as doubles. -/

namespace CompiledViews.Decimal

def digitsValue (cs : List Char) : Nat := cs.foldl (fun n c => n * 10 + (c.toNat - '0'.toNat)) 0

/-- The double nearest to `m` times ten to the power `e`. -/
def nearest (m : Nat) (e : Int) : Float :=
  if m = 0 then 0.0
  else
    let top := e + (Nat.toDigits 10 m).length
    if 400 < top then 1.0 / 0.0
    else if top < -400 then 0.0
    else if 0 ≤ e then Float.ofScientific m false e.toNat
    else Float.ofScientific m true (-e).toNat

/-- The exponent after a mantissa, with its sign; nothing stands for zero. -/
def exponent? : List Char → Option Int
  | [] => some 0
  | c :: cs =>
    if c ≠ 'e' && c ≠ 'E' then none
    else
      let (negative, cs) := match cs with
        | '-' :: cs => (true, cs)
        | '+' :: cs => (false, cs)
        | cs => (false, cs)
      if cs.isEmpty || !cs.all Char.isDigit then none
      else
        let n : Int := digitsValue cs
        some (if negative then -n else n)

/-- A double without its sign: digits with at most one point, or a name of infinity or of no
number. -/
def unsigned? (cs : List Char) : Option Float :=
  let word := cs.map Char.toLower
  if word = "inf".toList || word = "infinity".toList then some (1.0 / 0.0)
  else if word = "nan".toList then some (0.0 / 0.0)
  else
    let whole := cs.takeWhile Char.isDigit
    let rest := cs.dropWhile Char.isDigit
    let (part, rest) := match rest with
      | '.' :: rest => (rest.takeWhile Char.isDigit, rest.dropWhile Char.isDigit)
      | rest => ([], rest)
    if whole.isEmpty && part.isEmpty then none
    else (exponent? rest).map fun e => nearest (digitsValue (whole ++ part)) (e - part.length)

/-- The double that a text spells, all of it. -/
def float? (s : String) : Option Float :=
  match s.toList with
  | '-' :: cs => (unsigned? cs).map (- ·)
  | '+' :: cs => unsigned? cs
  | cs => unsigned? cs

end CompiledViews.Decimal
