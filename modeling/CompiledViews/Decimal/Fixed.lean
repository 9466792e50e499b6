/-! Fractions with a fixed number of places. A half goes to the even neighbour. -/

namespace CompiledViews.Decimal

/-- The nearest whole number to a fraction. -/
def roundDiv (num den : Nat) : Nat :=
  let q := num / den
  let twice := 2 * (num % den)
  if den < twice ∨ (twice = den ∧ q % 2 = 1) then q + 1 else q

/-- A fraction with so many places. -/
def fixed (places num den : Nat) : String :=
  let n := roundDiv (num * Nat.pow 10 places) den
  let digits := Nat.toDigits 10 (n % Nat.pow 10 places)
  s!"{n / Nat.pow 10 places}." ++
    String.ofList (List.replicate (places - digits.length) '0' ++ digits)

example : roundDiv 5 2 = 2 ∧ roundDiv 7 2 = 4 ∧ roundDiv 8 3 = 3 := by decide

end CompiledViews.Decimal
