/-!
Bytes of a text in UTF-8. Decoding names the first byte that starts no character, and how many
bytes of a character were read there before it went wrong.
-/

namespace CompiledViews.Text.Utf8

/-- Why bytes are no text: `length` bytes from `index` on start a character and cannot go on, or
the bytes end inside a character. -/
inductive Fault where
  | invalid (length index : Nat)
  | incomplete (index : Nat)
  deriving Repr, DecidableEq

/-- The range of the second byte of a character that starts with the given byte, and how many
bytes follow the first. -/
def lead (b : UInt8) : Option (UInt8 × UInt8 × Nat) :=
  if 0xC2 ≤ b && b ≤ 0xDF then some (0x80, 0xBF, 1)
  else if b == 0xE0 then some (0xA0, 0xBF, 2)
  else if b == 0xED then some (0x80, 0x9F, 2)
  else if 0xE1 ≤ b && b ≤ 0xEF then some (0x80, 0xBF, 2)
  else if b == 0xF0 then some (0x90, 0xBF, 3)
  else if 0xF1 ≤ b && b ≤ 0xF3 then some (0x80, 0xBF, 3)
  else if b == 0xF4 then some (0x80, 0x8F, 3)
  else none

/-- The bits that the first byte of a character of `n + 1` bytes contributes. -/
def leadBits (b : UInt8) : Nat → Nat
  | 1 => b.toNat % 32
  | 2 => b.toNat % 16
  | _ => b.toNat % 8

/-- Decodes one character. `inl` is a fault, without its index. -/
def decodeChar (b : UInt8) (rest : List UInt8) : Fault ⊕ (Char × List UInt8) :=
  if b < 0x80 then .inr (Char.ofNat b.toNat, rest)
  else match lead b with
    | none => .inl (.invalid 1 0)
    | some (lo, hi, n) =>
      match rest with
      | [] => .inl (.incomplete 0)
      | b₁ :: rest =>
        if b₁ < lo || hi < b₁ then .inl (.invalid 1 0)
        else if n = 1 then .inr (Char.ofNat (leadBits b 1 * 64 + b₁.toNat % 64), rest)
        else match rest with
          | [] => .inl (.incomplete 0)
          | b₂ :: rest =>
            if b₂ < 0x80 || 0xBF < b₂ then .inl (.invalid 2 0)
            else if n = 2 then
              .inr (Char.ofNat ((leadBits b 2 * 64 + b₁.toNat % 64) * 64 + b₂.toNat % 64), rest)
            else match rest with
              | [] => .inl (.incomplete 0)
              | b₃ :: rest =>
                if b₃ < 0x80 || 0xBF < b₃ then .inl (.invalid 3 0)
                else .inr (Char.ofNat (((leadBits b 3 * 64 + b₁.toNat % 64) * 64
                  + b₂.toNat % 64) * 64 + b₃.toNat % 64), rest)

section Tail

variable {b : UInt8} {rest tail : List UInt8} {c : Char} {lo hi : UInt8} {n : Nat}

theorem tail_of_one (hb : b < 0x80) (h : decodeChar b rest = .inr (c, tail)) : rest = tail := by
  rw [decodeChar, if_pos hb] at h
  exact (Prod.mk.inj (Sum.inr.inj h)).2

theorem tail_of_two (hb : ¬b < 0x80) (hlead : lead b = some (lo, hi, 1))
    (h : decodeChar b rest = .inr (c, tail)) : ∃ b₁, rest = b₁ :: tail := by
  rw [decodeChar, if_neg hb, hlead] at h
  match rest with
  | [] => cases h
  | b₁ :: rest =>
    dsimp only at h
    split at h
    case isTrue => cases h
    case isFalse =>
      rw [if_pos rfl] at h
      exact ⟨b₁, by rw [(Prod.mk.inj (Sum.inr.inj h)).2]⟩

theorem tail_of_three (hb : ¬b < 0x80) (hlead : lead b = some (lo, hi, 2))
    (h : decodeChar b rest = .inr (c, tail)) : ∃ b₁ b₂, rest = b₁ :: b₂ :: tail := by
  rw [decodeChar, if_neg hb, hlead] at h
  match rest with
  | [] => cases h
  | [b₁] =>
    dsimp only at h
    split at h <;> cases h
  | b₁ :: b₂ :: rest =>
    dsimp only at h
    split at h
    case isTrue => cases h
    case isFalse =>
      rw [if_neg (by decide), if_pos rfl] at h
      split at h
      case isTrue => cases h
      case isFalse => exact ⟨b₁, b₂, by rw [(Prod.mk.inj (Sum.inr.inj h)).2]⟩

theorem tail_of_four (hb : ¬b < 0x80) (hlead : lead b = some (lo, hi, n)) (h₁ : n ≠ 1) (h₂ : n ≠ 2)
    (h : decodeChar b rest = .inr (c, tail)) : ∃ b₁ b₂ b₃, rest = b₁ :: b₂ :: b₃ :: tail := by
  rw [decodeChar, if_neg hb, hlead] at h
  match rest with
  | [] => cases h
  | [b₁] =>
    simp only [if_neg h₁] at h
    split at h <;> cases h
  | [b₁, b₂] =>
    simp only [if_neg h₁, if_neg h₂] at h
    split at h
    case isTrue => cases h
    case isFalse => split at h <;> cases h
  | b₁ :: b₂ :: b₃ :: rest =>
    simp only [if_neg h₁, if_neg h₂] at h
    split at h
    case isTrue => cases h
    case isFalse =>
      split at h
      case isTrue => cases h
      case isFalse =>
        split at h
        case isTrue => cases h
        case isFalse => exact ⟨b₁, b₂, b₃, by rw [(Prod.mk.inj (Sum.inr.inj h)).2]⟩

theorem decodeChar_length (h : decodeChar b rest = .inr (c, tail)) :
    tail.length ≤ rest.length := by
  by_cases hb : b < 0x80
  · exact Nat.le_of_eq (congrArg List.length (tail_of_one hb h).symm)
  · match hlead : lead b with
    | none =>
      rw [decodeChar, if_neg hb, hlead] at h
      cases h
    | some (lo, hi, n) =>
      by_cases h₁ : n = 1
      · obtain ⟨b₁, rfl⟩ := tail_of_two hb (h₁ ▸ hlead) h
        exact Nat.le_add_right _ 1
      · by_cases h₂ : n = 2
        · obtain ⟨b₁, b₂, rfl⟩ := tail_of_three hb (h₂ ▸ hlead) h
          exact Nat.le_add_right _ 2
        · obtain ⟨b₁, b₂, b₃, rfl⟩ := tail_of_four hb hlead h₁ h₂ h
          exact Nat.le_add_right _ 3

end Tail

def Fault.shift (offset : Nat) : Fault → Fault
  | .invalid n i => .invalid n (offset + i)
  | .incomplete i => .incomplete (offset + i)

/-- Decodes bytes, the first of which stands at `index`. -/
def decodeFrom (index : Nat) : List UInt8 → Except Fault (List Char)
  | [] => .ok []
  | b :: rest =>
    match h : decodeChar b rest with
    | .inl fault => .error (fault.shift index)
    | .inr (c, tail) =>
      have := decodeChar_length h
      (decodeFrom (index + (1 + rest.length - tail.length)) tail).map (c :: ·)
  termination_by bytes => bytes.length

/-- The text that the bytes hold. -/
def decode (bytes : List UInt8) : Except Fault String :=
  (decodeFrom 0 bytes).map String.ofList

/-- The bytes of one character. -/
def encodeChar (c : Char) : List UInt8 := String.utf8EncodeChar c

/-- The bytes of a text. -/
def encode (s : String) : List UInt8 := s.toList.flatMap encodeChar

/-- How many bytes a text has. -/
def size (s : String) : Nat := (encode s).length

/-- The bytes without one leading byte order mark. -/
def dropMark : List UInt8 → List UInt8
  | 0xEF :: 0xBB :: 0xBF :: rest => rest
  | bytes => bytes

/-- Decodes bytes in which each fault is replaced by U+FFFD. -/
def decodeLossy : List UInt8 → List Char
  | [] => []
  | b :: rest =>
    match h : decodeChar b rest with
    | .inl (.invalid n _) => '\uFFFD' :: decodeLossy (rest.drop (n - 1))
    | .inl (.incomplete _) => ['\uFFFD']
    | .inr (c, tail) =>
      have := decodeChar_length h
      c :: decodeLossy tail
  termination_by bytes => bytes.length

def Fault.message : Fault → String
  | .invalid n i => s!"invalid utf-8 sequence of {n} bytes from index {i}"
  | .incomplete i => s!"incomplete utf-8 byte sequence from index {i}"

/-- Decodes bytes after one leading byte order mark, which is no part of the text. -/
def decodeMarked (bytes : List UInt8) : Except Fault String := decode (dropMark bytes)

end CompiledViews.Text.Utf8
