import CompiledViews.Json.Reader
import CompiledViews.Json.Writer
import Mathlib.Tactic.Common

/-! What is written as JSON is read back, whatever follows it. A text of strings and lists is long
enough to bound the steps that reading it takes. -/

namespace CompiledViews.Json

namespace Reader

variable {fuel depth : Nat} {rest : List Char}

/-! Strings. -/

lemma hexDigit?_hexChar : ∀ n < 16, hexDigit? (hexChar n) = some n := by decide

/-- Two hexadecimal digits are enough for a control character. -/
lemma readUnicode_control {c : Char} (hc : c.toNat < 0x20) :
    readUnicode ('0' :: '0' :: hexChar (c.toNat / 16) :: hexChar (c.toNat % 16) :: rest) =
      some (c, rest) := by
  have hzero : hexDigit? '0' = some 0 := by decide
  have hhigh := hexDigit?_hexChar (c.toNat / 16) (by omega)
  have hlow := hexDigit?_hexChar (c.toNat % 16) (by omega)
  have hvalue : c.toNat / 16 * 16 + c.toNat % 16 = c.toNat := by omega
  simp [readUnicode, readHex4, hzero, hhigh, hlow, hvalue, show c.toNat < 0xD800 by omega]

/-- An escaped character is one character of a string. -/
theorem readString_escapeChar (c : Char) (cs : List Char) :
    readString (fuel + 1) (escapeChar c ++ cs) =
      (readString fuel cs).map fun (s, rest) => (c :: s, rest) := by
  unfold escapeChar
  split
  case h_8 hquote hslash _ _ _ _ _ =>
    split
    case isTrue hcontrol =>
      simp only [List.cons_append, List.nil_append, readString, readUnicode_control hcontrol,
        Option.bind_some]
    case isFalse hplain =>
      have hno : (c = '\\' || c.toNat < 0x20) = false := by simpa [hplain] using hslash
      rw [List.cons_append, List.nil_append, readString]
      · simp only [hno, Bool.false_eq_true, if_false]
      · exact hquote
      · exact fun _ _ hc _ => hslash hc
  all_goals rfl

/-- A string is read back from its characters, which end in a quote. -/
theorem readString_escaped (cs : List Char) (hfuel : cs.length < fuel) :
    readString fuel (cs.flatMap escapeChar ++ '"' :: rest) = some (cs, rest) := by
  induction cs generalizing fuel with
  | nil =>
    obtain ⟨fuel, rfl⟩ := Nat.exists_eq_add_of_lt hfuel
    simp [readString]
  | cons c cs ih =>
    obtain ⟨fuel, rfl⟩ := Nat.exists_eq_add_of_lt hfuel
    rw [List.flatMap_cons, List.append_assoc, readString_escapeChar, ih (by simp; omega)]
    rfl

lemma escapeChar_ne_nil (c : Char) : escapeChar c ≠ [] := by
  unfold escapeChar
  split
  case h_8 => split <;> simp
  all_goals simp

lemma length_le_flatMap_escapeChar (cs : List Char) :
    cs.length ≤ (cs.flatMap escapeChar).length := by
  induction cs with
  | nil => simp
  | cons c cs ih =>
    have hpos := List.length_pos_iff.mpr (escapeChar_ne_nil c)
    simp only [List.flatMap_cons, List.length_append, List.length_cons]
    omega

/-- The text of a string, without its first quote. -/
lemma writeString_append (s : String) (rest : List Char) :
    writeString s ++ rest = '"' :: (s.toList.flatMap escapeChar ++ '"' :: rest) := by
  simp [writeString]

/-- The text after the first quote bounds the steps of reading a string. -/
theorem readString_write {tail : List Char} (s : String)
    (htail : tail = s.toList.flatMap escapeChar ++ '"' :: rest) :
    readString (tail.length + 1) tail = some (s.toList, rest) := by
  have hle := length_le_flatMap_escapeChar s.toList
  rw [htail]
  exact readString_escaped s.toList (by rw [List.length_append]; omega)

/-! Values. -/

lemma skipBlanks_quote (cs : List Char) : skipBlanks ('"' :: cs) = '"' :: cs := by
  simp [skipBlanks]

lemma skipBlanks_bracket (cs : List Char) : skipBlanks ('[' :: cs) = '[' :: cs := by
  simp [skipBlanks]

/-- The text of a value is read as the value, whatever follows; at most `depth` lists in it stand
inside each other. -/
structure ReadBack (depth : Nat) (v : Json) : Prop where
  starts : ∃ c cs, v.write = c :: cs ∧ c ≠ ']' ∧ ∀ tail, skipBlanks (c :: tail) = c :: tail
  reads : ∀ fuel rest, v.write.length ≤ fuel →
    readValue fuel depth (v.write ++ rest) = some (v, rest)

theorem readBack_str (depth : Nat) (s : String) : ReadBack depth (.str s) where
  starts := ⟨'"', _, by rw [write, writeString, List.cons_append], by decide, skipBlanks_quote⟩
  reads fuel rest hfuel := by
    obtain ⟨fuel, rfl⟩ : ∃ n, fuel = n + 1 :=
      Nat.exists_eq_succ_of_ne_zero (by rintro rfl; simp [write, writeString] at hfuel)
    rw [write, writeString_append, readValue, skipBlanks_quote]
    simp only [readString_write s rfl, Option.map_some, String.ofList_toList]

/-- The items of a list that is not empty. -/
theorem readItems_writeItems {items : List Json} (hne : items ≠ [])
    (hitems : ∀ item ∈ items, ReadBack depth item) (hfuel : (writeItems items).length ≤ fuel) :
    readItems fuel depth (writeItems items ++ rest) = some (items, rest) := by
  induction items generalizing fuel with
  | nil => exact absurd rfl hne
  | cons item items ih =>
    rw [List.forall_mem_cons] at hitems
    cases items with
    | nil =>
      simp only [writeItems, List.length_append, List.length_singleton] at hfuel
      obtain ⟨fuel, rfl⟩ : ∃ n, fuel = n + 1 := Nat.exists_eq_succ_of_ne_zero (by omega)
      rw [writeItems, List.append_assoc, readItems, hitems.1.reads _ _ (by omega)]
      simp [skipBlanks]
    | cons next items =>
      have hlength : (writeItems (item :: next :: items)).length =
          item.write.length + ((writeItems (next :: items)).length + 1) := by
        simp [writeItems]
      obtain ⟨fuel, rfl⟩ : ∃ n, fuel = n + 1 := Nat.exists_eq_succ_of_ne_zero (by omega)
      have hrest : readItems fuel depth (writeItems (next :: items) ++ rest) =
          some (next :: items, rest) := ih (by simp) hitems.2 (by omega)
      rw [writeItems, List.append_assoc, readItems, hitems.1.reads _ _ (by omega)]
      · simpa [skipBlanks] using hrest
      · simp

theorem readBack_arr {items : List Json} (hitems : ∀ item ∈ items, ReadBack depth item) :
    ReadBack (depth + 1) (.arr items) where
  starts := ⟨'[', _, by rw [write], by decide, skipBlanks_bracket⟩
  reads fuel rest hfuel := by
    rw [write, List.length_cons] at hfuel
    obtain ⟨fuel, rfl⟩ : ∃ n, fuel = n + 1 := Nat.exists_eq_succ_of_ne_zero (by omega)
    rw [write, List.cons_append, readValue, skipBlanks_bracket]
    cases items with
    | nil => simp [writeItems, skipBlanks]
    | cons item items =>
      have hread : readItems fuel depth (writeItems (item :: items) ++ rest) =
          some (item :: items, rest) :=
        readItems_writeItems (by simp) hitems (Nat.le_of_succ_le_succ hfuel)
      -- the first item does not look like the end of the list
      obtain ⟨c, cs, hwrite, hc, hskip⟩ := (hitems item List.mem_cons_self).starts
      obtain ⟨tail, htail⟩ : ∃ tail, writeItems (item :: items) ++ rest = c :: tail := by
        cases items <;> exact ⟨_, by simp only [writeItems, hwrite, List.cons_append]; rfl⟩
      rw [htail] at hread ⊢
      simp only [hskip]
      split
      case h_1 hend => exact absurd (List.cons.inj hend).1 hc
      case h_2 => rw [hread, Option.map_some]

/-- The last field is read with its value. -/
lemma readFields_last {value : Json} (hvalue : ReadBack depth value)
    (hfuel : value.write.length ≤ fuel) (name : String) :
    readFields (fuel + 1) depth (writeString name ++ ':' :: (value.write ++ '\x7d' :: rest)) =
      some ([(name, value)], rest) := by
  have hcolon : ∀ cs, skipBlanks (':' :: cs) = ':' :: cs := fun _ => by simp [skipBlanks]
  have hend : skipBlanks ('\x7d' :: rest) = '\x7d' :: rest := by simp [skipBlanks]
  rw [writeString_append, readFields, skipBlanks_quote]
  simp only [readString_write name rfl, hcolon, hvalue.reads _ _ hfuel, hend, String.ofList_toList]

/-- A field before others is read with its value, and the others after it. -/
lemma readFields_cons {value : Json} (hvalue : ReadBack depth value)
    (hfuel : value.write.length ≤ fuel) (name : String) {tail : List Char}
    {fields : List (String × Json)} (htail : readFields fuel depth tail = some (fields, rest)) :
    readFields (fuel + 1) depth (writeString name ++ ':' :: (value.write ++ ',' :: tail)) =
      some ((name, value) :: fields, rest) := by
  have hcolon : ∀ cs, skipBlanks (':' :: cs) = ':' :: cs := fun _ => by simp [skipBlanks]
  have hcomma : skipBlanks (',' :: tail) = ',' :: tail := by simp [skipBlanks]
  rw [writeString_append, readFields, skipBlanks_quote]
  simp only [readString_write name rfl, hcolon, hvalue.reads _ _ hfuel, hcomma, htail,
    String.ofList_toList, Option.map_some]

/-- The fields of a record that is not empty. -/
theorem readFields_writeFields {fields : List (String × Json)} (hne : fields ≠ [])
    (hfields : ∀ f ∈ fields, ReadBack depth f.2) (hfuel : (writeFields fields).length ≤ fuel) :
    readFields fuel depth (writeFields fields ++ rest) = some (fields, rest) := by
  induction fields generalizing fuel with
  | nil => exact absurd rfl hne
  | cons field fields ih =>
    obtain ⟨name, value⟩ := field
    rw [List.forall_mem_cons] at hfields
    cases fields with
    | nil =>
      have htext : writeFields [(name, value)] ++ rest =
          writeString name ++ ':' :: (value.write ++ '\x7d' :: rest) := by simp [writeFields]
      have hlength : (writeFields [(name, value)]).length =
          (writeString name).length + (value.write.length + 1 + 1) := by simp [writeFields]
      obtain ⟨fuel, rfl⟩ : ∃ n, fuel = n + 1 := Nat.exists_eq_succ_of_ne_zero (by omega)
      rw [htext, readFields_last hfields.1 (show value.write.length ≤ fuel by omega)]
    | cons next fields =>
      have htext : writeFields ((name, value) :: next :: fields) ++ rest = writeString name ++
          ':' :: (value.write ++ ',' :: (writeFields (next :: fields) ++ rest)) := by
        simp [writeFields]
      have hlength : (writeFields ((name, value) :: next :: fields)).length =
          (writeString name).length + (value.write.length +
            ((writeFields (next :: fields)).length + 1) + 1) := by
        simp [writeFields]
      obtain ⟨fuel, rfl⟩ : ∃ n, fuel = n + 1 := Nat.exists_eq_succ_of_ne_zero (by omega)
      have hrest : readFields fuel depth (writeFields (next :: fields) ++ rest) =
          some (next :: fields, rest) := ih (by simp) hfields.2 (by omega)
      rw [htext, readFields_cons hfields.1 (show value.write.length ≤ fuel by omega) name hrest]

/-- A record is read back field by field. -/
theorem readRecord_writeFields {fields : List (String × Json)} (hne : fields ≠ [])
    (hfields : ∀ f ∈ fields, ReadBack (maxDepth - 1) f.2) :
    readRecord ('\x7b' :: writeFields fields) = some fields := by
  have hfuel : (writeFields fields).length ≤ 2 * ('\x7b' :: writeFields fields).length + 2 := by
    rw [List.length_cons]
    omega
  have hread : readFields (2 * ('\x7b' :: writeFields fields).length + 2) (maxDepth - 1)
      (writeFields fields ++ []) = some (fields, []) := readFields_writeFields hne hfields hfuel
  rw [List.append_nil] at hread
  obtain ⟨tail, htail⟩ : ∃ tail, writeFields fields = '"' :: tail := by
    cases fields with
    | nil => exact absurd rfl hne
    | cons field fields =>
      cases fields <;> exact ⟨_, by simp only [writeFields, writeString, List.cons_append]; rfl⟩
  have hbrace : ∀ cs, skipBlanks ('\x7b' :: cs) = '\x7b' :: cs := fun _ => by simp [skipBlanks]
  rw [readRecord, hbrace, htail]
  rw [htail] at hread
  generalize 2 * ('\x7b' :: '"' :: tail).length + 2 = fuel at hread ⊢
  simp [skipBlanks, hread]

end Reader

end CompiledViews.Json
