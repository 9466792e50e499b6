import CompiledViews.Json.Basic

/-! Reading JSON text. Containers may be nested 127 deep, and a number out of the range of doubles
is refused. -/

namespace CompiledViews.Json.Reader

/-- Blanks between tokens. -/
def skipBlanks (cs : List Char) : List Char :=
  cs.dropWhile fun c => c = ' ' || c = '\n' || c = '\t' || c = '\r'

def hexDigit? (c : Char) : Option Nat :=
  if c.isDigit then some (c.toNat - '0'.toNat)
  else if 'a' ≤ c && c ≤ 'f' then some (c.toNat - 'a'.toNat + 10)
  else if 'A' ≤ c && c ≤ 'F' then some (c.toNat - 'A'.toNat + 10)
  else none

def readHex4 : List Char → Option (Nat × List Char)
  | a :: b :: c :: d :: rest => do
    let a ← hexDigit? a
    let b ← hexDigit? b
    let c ← hexDigit? c
    let d ← hexDigit? d
    pure (((a * 16 + b) * 16 + c) * 16 + d, rest)
  | _ => none

/-- The character after `\u`. A surrogate must be followed by the escape of its other half. -/
def readUnicode (cs : List Char) : Option (Char × List Char) :=
  match readHex4 cs with
  | none => none
  | some (high, rest) =>
    if high < 0xD800 || 0xDFFF < high then some (Char.ofNat high, rest)
    else if 0xDC00 ≤ high then none
    else match rest with
      | '\\' :: 'u' :: rest =>
        match readHex4 rest with
        | some (low, rest) =>
          if low < 0xDC00 || 0xDFFF < low then none
          else some (Char.ofNat ((high - 0xD800) * 0x400 + (low - 0xDC00) + 0x10000), rest)
        | none => none
      | _ => none

/-- The text of a string after its opening quote. -/
def readString (fuel : Nat) (cs : List Char) : Option (List Char × List Char) :=
  match fuel, cs with
  | 0, _ => none
  | _, [] => none
  | _ + 1, '"' :: rest => some ([], rest)
  | fuel + 1, '\\' :: c :: rest =>
    let continue_ (c : Char) (rest : List Char) :=
      (readString fuel rest).map fun (s, rest) => (c :: s, rest)
    match c with
    | '"' => continue_ '"' rest
    | '\\' => continue_ '\\' rest
    | '/' => continue_ '/' rest
    | 'b' => continue_ '\x08' rest
    | 'f' => continue_ '\x0C' rest
    | 'n' => continue_ '\n' rest
    | 'r' => continue_ '\r' rest
    | 't' => continue_ '\t' rest
    | 'u' => (readUnicode rest).bind fun (c, rest) => continue_ c rest
    | _ => none
  | fuel + 1, c :: rest =>
    if c = '\\' || c.toNat < 0x20 then none
    else (readString fuel rest).map fun (s, rest) => (c :: s, rest)

/-- A number in parts: its digits up to the range of 64 bits, and a power of ten. -/
structure Scaled where
  significand : Nat
  exponent : Int

/-- The double next to a scaled number: its digits, then one multiplication or division by a power
of ten at a time. -/
def Scaled.toFloat? (s : Scaled) (fuel : Nat) (f : Float) (e : Int) : Option Float :=
  match fuel with
  | 0 => some f
  | fuel + 1 =>
    if e.natAbs ≤ 308 then
      let pow := Float.ofScientific 1 false e.natAbs
      if 0 ≤ e then
        let r := f * pow
        if r.isInf then none else some r
      else some (f / pow)
    else if s.significand = 0 then some f
    else if 0 ≤ e then none
    else s.toFloat? fuel (f / Float.ofScientific 1 false 308) (e + 308)

def Scaled.float? (s : Scaled) (negative : Bool) : Option Number :=
  (s.toFloat? (s.exponent.natAbs / 308 + 2) s.significand.toUInt64.toFloat s.exponent).map fun f =>
    .float (if negative then -f else f)

/-- Takes in digits while the number stays below `2 ^ 64`; the rest are only counted. -/
def takeDigits : Nat → List Char → Nat × Nat × Nat × List Char
  | acc, [] => (acc, 0, 0, [])
  | acc, c :: cs =>
    if c.isDigit then
      let next := acc * 10 + (c.toNat - '0'.toNat)
      if next < Nat.pow 2 64 then
        let (n, taken, left, rest) := takeDigits next cs
        (n, taken + 1, left, rest)
      else (acc, 0, ((c :: cs).takeWhile Char.isDigit).length, (c :: cs).dropWhile Char.isDigit)
    else (acc, 0, 0, c :: cs)

/-- The exponent part after its `e`, added to the power of ten so far. -/
def readExponent (negative : Bool) (s : Scaled) (cs : List Char) : Option (Number × List Char) :=
  let (down, cs) := match cs with
    | '+' :: cs => (false, cs)
    | '-' :: cs => (true, cs)
    | cs => (false, cs)
  let digits := cs.takeWhile Char.isDigit
  let rest := cs.dropWhile Char.isDigit
  if digits.isEmpty then none
  else
    let n := digits.foldl (fun acc c => acc * 10 + (c.toNat - '0'.toNat)) 0
    if Nat.pow 2 31 ≤ n then
      if !down && s.significand ≠ 0 then none
      else some (.float (if negative then -0.0 else 0.0), rest)
    else
      let e : Int := if down then s.exponent - n else s.exponent + n
      (Scaled.float? ⟨s.significand, e⟩ negative).map (·, rest)

/-- The fraction after its point. -/
def readFraction (negative : Bool) (s : Scaled) (cs : List Char) : Option (Number × List Char) :=
  let (n, taken, left, rest) := takeDigits s.significand cs
  if taken = 0 && left = 0 then none
  else
    let s : Scaled := ⟨n, s.exponent - taken⟩
    match rest with
    | 'e' :: rest => readExponent negative s rest
    | 'E' :: rest => readExponent negative s rest
    | rest => (s.float? negative).map (·, rest)

def readNumber (cs : List Char) : Option (Number × List Char) :=
  let (negative, cs) := match cs with
    | '-' :: cs => (true, cs)
    | cs => (false, cs)
  let whole := cs.takeWhile Char.isDigit
  if whole.isEmpty || (whole.head? = some '0' && 1 < whole.length) then none
  else
    let (n, _, left, rest) := takeDigits 0 cs
    let s : Scaled := ⟨n, left⟩
    match rest with
    | '.' :: rest => readFraction negative s rest
    | 'e' :: rest => readExponent negative s rest
    | 'E' :: rest => readExponent negative s rest
    | rest =>
      if 0 < left then (s.float? negative).map (·, rest)
      else if !negative then some (.int n, rest)
      else if 0 < n && n ≤ Nat.pow 2 63 then some (.int (-n), rest)
      else some (.float (-n.toUInt64.toFloat), rest)

/-- Removes a word from the front of a text. -/
def skipWord (word : List Char) (cs : List Char) : Option (List Char) :=
  if word.isPrefixOf cs then some (cs.drop word.length) else none

mutual

/-- Reads a value; `depth` more containers may be opened. -/
def readValue (fuel depth : Nat) (cs : List Char) : Option (Json × List Char) :=
  match fuel with
  | 0 => none
  | fuel + 1 =>
    match skipBlanks cs with
    | '"' :: rest => (readString (rest.length + 1) rest).map fun (s, rest) => (.str (.ofList s), rest)
    | 't' :: rest => (skipWord "rue".toList rest).map (.bool true, ·)
    | 'f' :: rest => (skipWord "alse".toList rest).map (.bool false, ·)
    | 'n' :: rest => (skipWord "ull".toList rest).map (.null, ·)
    | '[' :: rest =>
      match depth with
      | 0 => none
      | depth + 1 =>
        match skipBlanks rest with
        | ']' :: rest => some (.arr [], rest)
        | rest => (readItems fuel depth rest).map fun (items, rest) => (.arr items, rest)
    | '\x7b' :: rest =>
      match depth with
      | 0 => none
      | depth + 1 =>
        match skipBlanks rest with
        | '\x7d' :: rest => some (.obj [], rest)
        | rest => (readFields fuel depth rest).map fun (fields, rest) => (.object fields, rest)
    | rest => (readNumber rest).map fun (n, rest) => (.num n, rest)

/-- Reads the items of an array up to its closing bracket. -/
def readItems (fuel depth : Nat) (cs : List Char) : Option (List Json × List Char) :=
  match fuel with
  | 0 => none
  | fuel + 1 =>
    match readValue fuel depth cs with
    | none => none
    | some (item, rest) =>
      match skipBlanks rest with
      | ']' :: rest => some ([item], rest)
      | ',' :: rest => (readItems fuel depth rest).map fun (items, rest) => (item :: items, rest)
      | _ => none

/-- Reads the fields of an object up to its closing brace. -/
def readFields (fuel depth : Nat) (cs : List Char) : Option (List (String × Json) × List Char) :=
  match fuel with
  | 0 => none
  | fuel + 1 =>
    match skipBlanks cs with
    | '"' :: rest =>
      match readString (rest.length + 1) rest with
      | none => none
      | some (name, rest) =>
        match skipBlanks rest with
        | ':' :: rest =>
          match readValue fuel depth rest with
          | none => none
          | some (value, rest) =>
            match skipBlanks rest with
            | '\x7d' :: rest => some ([(.ofList name, value)], rest)
            | ',' :: rest =>
              (readFields fuel depth rest).map fun (fields, rest) =>
                ((.ofList name, value) :: fields, rest)
            | _ => none
        | _ => none
    | _ => none

end

/-- How deep containers may be nested. -/
def maxDepth : Nat := 127

/-- Reads a text that holds one value and nothing else but blanks. -/
def read (cs : List Char) : Option Json :=
  match readValue (2 * cs.length + 2) maxDepth cs with
  | some (value, rest) => if (skipBlanks rest).isEmpty then some value else none
  | none => none

/-- Reads a text that holds one object, each field as it stands, repeated or not. -/
def readRecord (cs : List Char) : Option (List (String × Json)) :=
  match skipBlanks cs with
  | '\x7b' :: rest =>
    let fields := match skipBlanks rest with
      | '\x7d' :: rest => some ([], rest)
      | rest => readFields (2 * cs.length + 2) (maxDepth - 1) rest
    match fields with
    | some (fields, rest) => if (skipBlanks rest).isEmpty then some fields else none
    | none => none
  | _ => none

end CompiledViews.Json.Reader

namespace CompiledViews

/-- The value that a JSON text holds. -/
def Json.parse? (text : String) : Option Json := Json.Reader.read text.toList

end CompiledViews
