import CompiledViews.Naming
import CompiledViews.Proofs.Text.Lines

/-! Dotted names hold no blanks, and a dot cuts one into two. So what a type's name is cut into, its
namespace and its own name, are dotted names again. -/

namespace CompiledViews

namespace Naming

lemma toNat_of_isPart {c : Char} (h : isPart c = true) : 48 ≤ c.toNat ∧ c.toNat ≤ 122 := by
  have hcases : ((65 ≤ c.toNat ∧ c.toNat ≤ 90 ∨ 97 ≤ c.toNat ∧ c.toNat ≤ 122) ∨
      48 ≤ c.toNat ∧ c.toNat ≤ 57) ∨ c = '_' := by
    unfold isPart Char.isAlphanum Char.isAlpha Char.isUpper Char.isLower Char.isDigit at h
    simpa [UInt32.le_iff_toNat_le] using h
  rcases hcases with hletter | rfl
  · omega
  · decide

theorem not_blank_of_isPart {c : Char} (h : isPart c = true) : Text.isBlank c = false := by
  have hc := toNat_of_isPart h
  simp only [Text.isBlank, Bool.or_eq_false_iff, Bool.and_eq_false_iff, decide_eq_false_iff_not,
    beq_eq_false_iff_ne]
  omega

lemma isPart_of_isStart {c : Char} (h : isStart c = true) : isPart c = true := by
  simp only [isStart, isPart, Char.isAlphanum, Bool.or_eq_true] at h ⊢
  tauto

theorem isPart_or_dot_of_scan {fresh : Bool} {cs : List Char} (h : scan fresh cs = true) :
    ∀ c ∈ cs, isPart c = true ∨ c = '.' := by
  induction cs generalizing fresh with
  | nil => simp
  | cons d ds ih =>
    rw [List.forall_mem_cons]
    rw [scan] at h
    cases fresh with
    | true =>
      rw [if_pos rfl, Bool.and_eq_true] at h
      exact ⟨.inl (isPart_of_isStart h.1), ih h.2⟩
    | false =>
      rw [if_neg (by simp)] at h
      by_cases hd : d = '.'
      · rw [if_pos hd] at h
        exact ⟨.inr hd, ih h⟩
      · rw [if_neg hd, Bool.and_eq_true] at h
        exact ⟨.inl h.1, ih h.2⟩

/-- What stands before a dot of a dotted name is one, and what stands after it. -/
theorem scan_append_dot (fresh : Bool) (xs ys : List Char) :
    scan fresh (xs ++ '.' :: ys) = (scan fresh xs && scan true ys) := by
  induction xs generalizing fresh with
  | nil => cases fresh <;> simp [scan, show isStart '.' = false by decide]
  | cons x xs ih =>
    cases fresh with
    | true => simp [scan, ih, Bool.and_assoc]
    | false => by_cases hx : x = '.' <;> simp [scan, ih, hx, Bool.and_assoc]

end Naming

open Text

theorem inline_of_isQualifiedName {s : String} (h : isQualifiedName s = true) : Inline s := by
  have hblank : ∀ c ∈ s.toList, isBlank c = false := fun c hc => by
    rcases Naming.isPart_or_dot_of_scan h c hc with hpart | rfl
    · exact Naming.not_blank_of_isPart hpart
    · decide
  refine Inline.of_no_blank ?_ (by simpa using hblank)
  intro hnil
  simp [isQualifiedName, hnil, Naming.scan] at h

namespace TypeName

/-- The names that some text spells. -/
def Spelled (t : TypeName) : Prop := ∃ s, ofText? s = some t

/-- The two parts of a name, joined again, are the name. -/
theorem toList_text_cut (cs : List Char) : (cut cs).text.toList = cs := by
  have hparts : (cs.reverse.dropWhile (· ≠ '.')).reverse ++
      (cs.reverse.takeWhile (· ≠ '.')).reverse = cs := by
    rw [← List.reverse_append, List.takeWhile_append_dropWhile, List.reverse_reverse]
  simp only [cut]
  split
  case h_1 hnil =>
    rw [hnil] at hparts
    simpa [text] using hparts
  case h_2 dot front hcons =>
    have hdot : dot = '.' := by
      have hhead := List.head?_dropWhile_not (fun c : Char => decide (c ≠ '.')) cs.reverse
      rw [hcons] at hhead
      simpa using hhead
    rw [hcons, hdot] at hparts
    simpa [text] using hparts

/-- The namespace of a name is a dotted name, and so is the name below it. -/
theorem Spelled.qualified {t : TypeName} (h : t.Spelled) :
    (∀ ns ∈ t.ns, isQualifiedName ns = true) ∧ isQualifiedName t.name = true := by
  obtain ⟨s, hs⟩ := h
  rw [ofText?, Option.ite_none_right_eq_some] at hs
  obtain ⟨hname, hcut⟩ := hs
  obtain rfl := Option.some.inj hcut
  have hscan : Naming.scan true (cut (trim s).toList).text.toList = true := by
    rw [toList_text_cut]; exact hname
  generalize cut (trim s).toList = t at hscan
  obtain ⟨ns, name⟩ := t
  cases ns with
  | none => exact ⟨by simp, hscan⟩
  | some ns =>
    have hsplit : (text ⟨some ns, name⟩).toList = ns.toList ++ '.' :: name.toList := by simp [text]
    rw [hsplit, Naming.scan_append_dot, Bool.and_eq_true] at hscan
    exact ⟨by simpa [isQualifiedName] using hscan.1, hscan.2⟩

end TypeName

end CompiledViews
