import CompiledViews.Proofs.Except
import CompiledViews.Proofs.Text.Utf8

/-! Bytes that are decoded are the bytes of what they are decoded to. So every byte sequence that is
not the encoding of a text is refused, whichever way it goes wrong. -/

namespace CompiledViews.Text.Utf8

lemma encodeChar_ofNat {v : ℕ} (hv : v.isValidChar) : encodeChar (Char.ofNat v) =
    if v ≤ 0x7F then [.ofNat v]
    else if v ≤ 0x7FF then [.ofNat (v / 64 % 32 + 192), .ofNat (v % 64 + 128)]
    else if v ≤ 0xFFFF then
      [.ofNat (v / 4096 % 16 + 224), .ofNat (v / 64 % 64 + 128), .ofNat (v % 64 + 128)]
    else [.ofNat (v / 262144 % 8 + 240), .ofNat (v / 4096 % 64 + 128), .ofNat (v / 64 % 64 + 128),
      .ofNat (v % 64 + 128)] := by
  have hval : (Char.ofNat v).val.toNat = v := by
    rw [Char.ofNat, dif_pos hv]
    rfl
  rw [encodeChar, String.utf8EncodeChar, hval]

lemma ofNat_eq {b : UInt8} {n : ℕ} (h : n = b.toNat) : UInt8.ofNat n = b := by
  rw [h, UInt8.ofNat_toNat]

/-- What a byte that continues a character must satisfy. -/
def IsTail (b : UInt8) : Prop := 128 ≤ b.toNat ∧ b.toNat ≤ 191

/-- Bytes that make one character, by how many there are. The second byte of three or four must not
leave the character to be written with fewer bytes, or beyond what characters there are. -/
inductive Makes : List UInt8 → Char → Prop
  | one {b : UInt8} : b.toNat < 128 → Makes [b] (Char.ofNat b.toNat)
  | two {b b₁ : UInt8} : 194 ≤ b.toNat → b.toNat ≤ 223 → IsTail b₁ →
      Makes [b, b₁] (Char.ofNat (leadBits b 1 * 64 + b₁.toNat % 64))
  | three {b b₁ b₂ : UInt8} : 224 ≤ b.toNat → b.toNat ≤ 239 → IsTail b₁ → IsTail b₂ →
      (b.toNat = 224 → 160 ≤ b₁.toNat) → (b.toNat = 237 → b₁.toNat ≤ 159) →
      Makes [b, b₁, b₂] (Char.ofNat ((leadBits b 2 * 64 + b₁.toNat % 64) * 64 + b₂.toNat % 64))
  | four {b b₁ b₂ b₃ : UInt8} : 240 ≤ b.toNat → b.toNat ≤ 244 → IsTail b₁ → IsTail b₂ →
      IsTail b₃ →
      (b.toNat = 240 → 144 ≤ b₁.toNat) → (b.toNat = 244 → b₁.toNat ≤ 143) →
      Makes [b, b₁, b₂, b₃] (Char.ofNat (((leadBits b 3 * 64 + b₁.toNat % 64) * 64 +
        b₂.toNat % 64) * 64 + b₃.toNat % 64))

variable {b : UInt8} {c : Char} {rest tail bytes : List UInt8}

/-- The bytes that make a character are its encoding. -/
theorem Makes.encodeChar_eq (h : Makes bytes c) : encodeChar c = bytes := by
  cases h with
  | one hb => rw [encodeChar_ofNat (.inl (by omega)), if_pos (by omega), UInt8.ofNat_toNat]
  | @two b b₁ hlo hhi h₁ =>
    obtain ⟨_, _⟩ := h₁
    rw [leadBits, encodeChar_ofNat (.inl (by omega)), if_neg (by omega), if_pos (by omega),
      ofNat_eq (b := b) (by omega), ofNat_eq (b := b₁) (by omega)]
  | @three b b₁ b₂ hlo hhi h₁ h₂ hzero hsurrogate =>
    obtain ⟨_, _⟩ := h₁
    obtain ⟨_, _⟩ := h₂
    rw [leadBits, encodeChar_ofNat (by unfold Nat.isValidChar; omega), if_neg (by omega),
      if_neg (by omega), if_pos (by omega), ofNat_eq (b := b) (by omega),
      ofNat_eq (b := b₁) (by omega), ofNat_eq (b := b₂) (by omega)]
  | @four b b₁ b₂ b₃ hlo hhi h₁ h₂ h₃ hzero hlast =>
    obtain ⟨_, _⟩ := h₁
    obtain ⟨_, _⟩ := h₂
    obtain ⟨_, _⟩ := h₃
    have hbits : leadBits b 3 = b.toNat % 8 := rfl
    rw [hbits, encodeChar_ofNat (.inr (by omega)), if_neg (by omega), if_neg (by omega),
      if_neg (by omega), ofNat_eq (b := b) (by omega), ofNat_eq (b := b₁) (by omega),
      ofNat_eq (b := b₂) (by omega), ofNat_eq (b := b₃) (by omega)]

lemma in_range_of_not {lo hi : UInt8} (h : ¬(decide (b < lo) || decide (hi < b)) = true) :
    lo.toNat ≤ b.toNat ∧ b.toNat ≤ hi.toNat := by
  simp only [Bool.or_eq_true, decide_eq_true_eq, not_or, UInt8.lt_iff_toNat_lt] at h
  omega

lemma isTail_of_in_range (h : ¬(decide (b < 0x80) || decide (0xBF < b)) = true) : IsTail b :=
  in_range_of_not h

/-- What the first byte of a character says of how many follow, and of the second. -/
lemma lead_cases {b₁ lo hi : UInt8} {n : ℕ} (h : lead b = some (lo, hi, n))
    (h₁ : ¬(decide (b₁ < lo) || decide (hi < b₁)) = true) :
    IsTail b₁ ∧
      (n = 1 ∧ 194 ≤ b.toNat ∧ b.toNat ≤ 223 ∨
        n = 2 ∧ 224 ≤ b.toNat ∧ b.toNat ≤ 239 ∧
          (b.toNat = 224 → 160 ≤ b₁.toNat) ∧ (b.toNat = 237 → b₁.toNat ≤ 159) ∨
        n = 3 ∧ 240 ≤ b.toNat ∧ b.toNat ≤ 244 ∧
          (b.toNat = 240 → 144 ≤ b₁.toNat) ∧ (b.toNat = 244 → b₁.toNat ≤ 143)) := by
  obtain ⟨hlo, hhi⟩ := in_range_of_not h₁
  simp only [lead, Bool.and_eq_true, decide_eq_true_eq, beq_iff_eq, UInt8.le_iff_toNat_le,
    ← UInt8.toNat_inj, UInt8.toNat_ofNat] at h
  split_ifs at h <;> (cases h; simp only [UInt8.toNat_ofNat] at hlo hhi; unfold IsTail; omega)

/-- A character is decoded from bytes that make it. -/
theorem exists_makes_of_decodeChar (h : decodeChar b rest = .inr (c, tail)) :
    ∃ front, b :: rest = front ++ tail ∧ Makes front c := by
  rw [decodeChar] at h
  split at h
  case isTrue hascii =>
    cases h
    exact ⟨[b], rfl, .one (UInt8.lt_iff_toNat_lt.mp hascii)⟩
  case isFalse =>
    split at h
    case h_1 => cases h
    case h_2 lo hi n hlead =>
      split at h
      case h_1 => cases h
      case h_2 b₁ rest =>
        split at h
        case isTrue => cases h
        case isFalse hsecond =>
          obtain ⟨h₁, hcases⟩ := lead_cases hlead hsecond
          split at h
          case isTrue hone =>
            cases h
            obtain ⟨-, hlo, hhi⟩ := hcases.resolve_right (by omega)
            exact ⟨[b, b₁], rfl, .two hlo hhi h₁⟩
          case isFalse hone =>
            split at h
            case h_1 => cases h
            case h_2 b₂ rest =>
              split at h
              case isTrue => cases h
              case isFalse h₂ =>
                split at h
                case isTrue htwo =>
                  cases h
                  obtain ⟨-, hlo, hhi, hzero, hsurrogate⟩ :=
                    (hcases.resolve_left (by omega)).resolve_right (by omega)
                  exact ⟨[b, b₁, b₂], rfl,
                    .three hlo hhi h₁ (isTail_of_in_range h₂) hzero hsurrogate⟩
                case isFalse htwo =>
                  obtain ⟨-, hlo, hhi, hzero, hlast⟩ :=
                    (hcases.resolve_left (by omega)).resolve_left (by omega)
                  split at h
                  case h_1 => cases h
                  case h_2 b₃ rest =>
                    split at h
                    case isTrue => cases h
                    case isFalse h₃ =>
                      cases h
                      exact ⟨[b, b₁, b₂, b₃], rfl, .four hlo hhi h₁ (isTail_of_in_range h₂)
                        (isTail_of_in_range h₃) hzero hlast⟩

/-- What bytes are decoded to is encoded by them. -/
theorem encode_of_decodeFrom {index : ℕ} {cs : List Char} (h : decodeFrom index bytes = .ok cs) :
    cs.flatMap encodeChar = bytes := by
  induction cs generalizing index bytes with
  | nil =>
    cases bytes with
    | nil => rfl
    | cons b rest =>
      rw [decodeFrom] at h
      split at h
      case h_1 => cases h
      case h_2 c tail _ =>
        obtain ⟨cs, -, hcons⟩ := Except.map_eq_ok_iff.mp h
        cases hcons
  | cons c cs ih =>
    cases bytes with
    | nil => rw [decodeFrom] at h; cases h
    | cons b rest =>
      rw [decodeFrom] at h
      split at h
      case h_1 => cases h
      case h_2 c' tail hread =>
        obtain ⟨cs', hcs', hcons⟩ := Except.map_eq_ok_iff.mp h
        obtain ⟨rfl, rfl⟩ := List.cons.inj hcons
        obtain ⟨front, hfront, hmakes⟩ := exists_makes_of_decodeChar hread
        rw [List.flatMap_cons, ih hcs', hmakes.encodeChar_eq, hfront]

/-- Decoding succeeds on the encodings of texts, and on nothing else. -/
theorem decode_eq_ok_iff {s : String} : decode bytes = .ok s ↔ encode s = bytes := by
  constructor
  · intro h
    obtain ⟨cs, hcs, rfl⟩ := Except.map_eq_ok_iff.mp h
    rw [encode, String.toList_ofList]
    exact encode_of_decodeFrom hcs
  · rintro rfl
    exact decode_encode s

/-- The bytes of the byte order mark. -/
def mark : List UInt8 := [0xEF, 0xBB, 0xBF]

/-- One mark is dropped, and what follows is text. -/
theorem decodeMarked_mark_append (s : String) : decodeMarked (mark ++ encode s) = .ok s := by
  rw [decodeMarked]
  exact decode_encode s

lemma encode_mark_append (s : String) : encode ("\uFEFF" ++ s) = mark ++ encode s := by
  have hmark : encodeChar '\uFEFF' = mark := by decide
  rw [encode, encode, String.toList_append, List.flatMap_append]
  show [('\uFEFF' : Char)].flatMap encodeChar ++ _ = _
  rw [List.flatMap_singleton, hmark]

end CompiledViews.Text.Utf8
