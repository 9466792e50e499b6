import CompiledViews.Text.Utf8
import Mathlib.Tactic.Common

/-! Decoding the bytes of a text gives the text. How many bytes a character has is told by the first
of them, which also bounds the second. -/

namespace CompiledViews.Text.Utf8

section Lead

variable {n j k l : Nat} {tail : List UInt8}

lemma lead_two : ∀ n < 32, 2 ≤ n → lead (.ofNat (n + 192)) = some (0x80, 0xBF, 1) := by decide

lemma lead_three : ∀ n < 16, lead (.ofNat (n + 224)) =
    some (if n = 0 then 0xA0 else 0x80, if n = 13 then 0x9F else 0xBF, 2) := by decide

lemma lead_four : ∀ n < 5, lead (.ofNat (n + 240)) =
    some (if n = 0 then 0x90 else 0x80, if n = 4 then 0x8F else 0xBF, 3) := by decide

lemma not_ascii (hn : n < 64) : ¬UInt8.ofNat (n + 192) < 0x80 := by
  simp [UInt8.lt_iff_toNat_lt]; omega

lemma toNat_continuation (k : Nat) : (UInt8.ofNat (k % 64 + 128)).toNat = k % 64 + 128 := by
  rw [UInt8.toNat_ofNat']; omega

lemma toNat_continuation_mod (k : Nat) : (UInt8.ofNat (k % 64 + 128)).toNat % 64 = k % 64 := by
  rw [toNat_continuation]; omega

/-- The test that a byte which continues a character passes. -/
lemma in_range (lo hi : UInt8) (hlo : lo.toNat ≤ k % 64 + 128) (hhi : k % 64 + 128 ≤ hi.toNat) :
    (decide (UInt8.ofNat (k % 64 + 128) < lo) || decide (hi < UInt8.ofNat (k % 64 + 128))) =
      false := by
  rw [Bool.or_eq_false_iff, decide_eq_false_iff_not, decide_eq_false_iff_not,
    UInt8.lt_iff_toNat_lt, UInt8.lt_iff_toNat_lt, toNat_continuation]
  omega

lemma continuation_in_range (k : Nat) :
    (decide (UInt8.ofNat (k % 64 + 128) < 0x80) || decide (0xBF < UInt8.ofNat (k % 64 + 128))) =
      false := in_range 0x80 0xBF (by simp) (by simp; omega)

theorem decodeChar_two (hn : n < 32) (htwo : 2 ≤ n) :
    decodeChar (.ofNat (n + 192)) (.ofNat (k % 64 + 128) :: tail) =
      .inr (Char.ofNat (n * 64 + k % 64), tail) := by
  have hbits : leadBits (.ofNat (n + 192)) 1 = n := by
    simp only [leadBits, UInt8.toNat_ofNat']; omega
  rw [decodeChar, if_neg (not_ascii (by omega)), lead_two n hn htwo]
  simp only [continuation_in_range, toNat_continuation_mod, hbits]
  simp

theorem decodeChar_three (hn : n < 16) (hzero : n = 0 → 32 ≤ j % 64)
    (hsurrogate : n = 13 → j % 64 < 32) :
    decodeChar (.ofNat (n + 224)) (.ofNat (j % 64 + 128) :: .ofNat (k % 64 + 128) :: tail) =
      .inr (Char.ofNat ((n * 64 + j % 64) * 64 + k % 64), tail) := by
  have hbits : leadBits (.ofNat (n + 224)) 2 = n := by
    simp only [leadBits, UInt8.toNat_ofNat']; omega
  have hsecond := in_range (k := j) (if n = 0 then 0xA0 else 0x80) (if n = 13 then 0x9F else 0xBF)
    (by split <;> simp; omega) (by split <;> simp <;> omega)
  rw [decodeChar, if_neg (not_ascii (n := n + 32) (by omega)), lead_three n hn]
  simp only [hsecond, continuation_in_range, toNat_continuation_mod, hbits]
  simp

theorem decodeChar_four (hn : n < 5) (hzero : n = 0 → 16 ≤ j % 64) (hlast : n = 4 → j % 64 < 16) :
    decodeChar (.ofNat (n + 240))
        (.ofNat (j % 64 + 128) :: .ofNat (k % 64 + 128) :: .ofNat (l % 64 + 128) :: tail) =
      .inr (Char.ofNat (((n * 64 + j % 64) * 64 + k % 64) * 64 + l % 64), tail) := by
  have hbits : leadBits (.ofNat (n + 240)) 3 = n := by
    simp only [leadBits, UInt8.toNat_ofNat']; omega
  have hsecond := in_range (k := j) (if n = 0 then 0x90 else 0x80) (if n = 4 then 0x8F else 0xBF)
    (by split <;> simp; omega) (by split <;> simp <;> omega)
  rw [decodeChar, if_neg (not_ascii (n := n + 48) (by omega)), lead_four n hn]
  simp only [hsecond, continuation_in_range, toNat_continuation_mod, hbits]
  simp

end Lead

/-- Decoding the bytes of a character gives it, and leaves the bytes after them. -/
theorem decodeChar_encodeChar (c : Char) (tail : List UInt8) :
    ∃ b bs, encodeChar c = b :: bs ∧ decodeChar b (bs ++ tail) = .inr (c, tail) := by
  rw [encodeChar, String.utf8EncodeChar]
  have hc : Char.ofNat c.val.toNat = c := Char.ofNat_toNat c
  have hvalid : c.val.toNat < 55296 ∨ 57343 < c.val.toNat ∧ c.val.toNat < 1114112 := c.valid
  generalize c.val.toNat = v at hc hvalid
  split
  case isTrue h1 =>
    have hb : (UInt8.ofNat v).toNat = v := by rw [UInt8.toNat_ofNat']; omega
    have hlow : UInt8.ofNat v < 0x80 := by
      rw [UInt8.lt_iff_toNat_lt, hb]; exact Nat.lt_succ_of_le h1
    exact ⟨_, _, rfl, by rw [decodeChar, if_pos hlow, hb, hc]; rfl⟩
  case isFalse h1 =>
    split
    case isTrue h2 =>
      have hv : v / 64 % 32 * 64 + v % 64 = v := by omega
      refine ⟨_, _, rfl, (decodeChar_two (by omega) (by omega)).trans ?_⟩
      rw [hv, hc]
      rfl
    case isFalse h2 =>
      split
      case isTrue h3 =>
        have hv : (v / 4096 % 16 * 64 + v / 64 % 64) * 64 + v % 64 = v := by omega
        refine ⟨_, _, rfl, (decodeChar_three (by omega) (by omega) (by omega)).trans ?_⟩
        rw [hv, hc]
        rfl
      case isFalse h3 =>
        have hv : ((v / 262144 % 8 * 64 + v / 4096 % 64) * 64 + v / 64 % 64) * 64 + v % 64 = v := by
          omega
        refine ⟨_, _, rfl, (decodeChar_four (by omega) (by omega) (by omega)).trans ?_⟩
        rw [hv, hc]
        rfl

theorem decodeFrom_encode (index : Nat) (cs : List Char) :
    decodeFrom index (cs.flatMap encodeChar) = .ok cs := by
  induction cs generalizing index with
  | nil => rw [List.flatMap_nil, decodeFrom]
  | cons c cs ih =>
    obtain ⟨b, bs, hbytes, hread⟩ := decodeChar_encodeChar c (cs.flatMap encodeChar)
    rw [List.flatMap_cons, hbytes, List.cons_append, decodeFrom]
    split
    case h_1 fault hfault => rw [hread] at hfault; cases hfault
    case h_2 read hok =>
      rw [hread] at hok
      obtain ⟨rfl, rfl⟩ := Prod.mk.inj (Sum.inr.inj hok)
      rw [ih]
      rfl

@[simp] theorem decode_encode (s : String) : decode (encode s) = .ok s := by
  rw [decode, encode, decodeFrom_encode, Except.map, String.ofList_toList]

/-- A text that does not start with a byte order mark is decoded as it is. -/
theorem decodeMarked_encode {s : String} (h : s.toList.head? ≠ some '\uFEFF') :
    decodeMarked (encode s) = .ok s := by
  have hmark : dropMark (encode s) = encode s := by
    unfold dropMark
    split
    case h_1 rest hbytes =>
      exfalso
      cases hs : s.toList with
      | nil => simp [encode, hs] at hbytes
      | cons c cs =>
        -- the three bytes of the mark are those of the first character
        obtain ⟨b, bs, hfirst, hread⟩ := decodeChar_encodeChar c (cs.flatMap encodeChar)
        rw [encode, hs, List.flatMap_cons, hfirst, List.cons_append] at hbytes
        obtain ⟨rfl, htail⟩ := List.cons.inj hbytes
        rw [htail] at hread
        have hmark : decodeChar 0xEF (0xBB :: 0xBF :: rest) = .inr ('\uFEFF', rest) :=
          decodeChar_three (n := 15) (j := 59) (k := 63) (by omega) (by omega) (by omega)
        rw [hmark] at hread
        obtain ⟨rfl, -⟩ := Prod.mk.inj (Sum.inr.inj hread)
        exact h (by rw [hs]; rfl)
    case h_2 => rfl
  rw [decodeMarked, hmark, decode_encode]

end CompiledViews.Text.Utf8
