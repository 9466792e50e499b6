import CompiledViews.Text.Blank
import Mathlib.Data.List.DropRight
import Mathlib.Tactic.Common

/-! Trimming. Blanks at the ends of a text make no difference to what is left of it, and what is
left has none. -/

namespace CompiledViews.Text

variable {xs ys cs : List Char}

/-- There is no blank at either end. -/
def Trimmed (cs : List Char) : Prop :=
  (∀ c ∈ cs.head?, isBlank c = false) ∧ ∀ c ∈ cs.getLast?, isBlank c = false

theorem trimEndList_eq_rdropWhile (cs : List Char) : trimEndList cs = cs.rdropWhile isBlank := rfl

theorem Trimmed.trimList_eq (h : Trimmed cs) : trimList cs = cs := by
  have hstart : trimStartList cs = cs := by
    cases cs with
    | nil => rfl
    | cons c cs => exact List.dropWhile_cons_of_neg (by simp [h.1 c rfl])
  rw [trimList, hstart, trimEndList_eq_rdropWhile, List.rdropWhile_eq_self_iff]
  intro hne
  simp [h.2 _ (List.getLast?_eq_some_getLast hne)]

/-- What is left after trimming at the start ends as the text does. -/
lemma suffix_trimStartList (cs : List Char) : trimStartList cs <:+ cs := List.dropWhile_suffix _

lemma prefix_trimEndList (cs : List Char) : trimEndList cs <+: cs := List.rdropWhile_prefix _ _

theorem infix_trimList (cs : List Char) : trimList cs <:+: cs :=
  (prefix_trimEndList _).isInfix.trans (suffix_trimStartList cs).isInfix

theorem trimmed_trimList (cs : List Char) : Trimmed (trimList cs) := by
  constructor
  · intro c hc
    -- the first character left is the first one that is not blank
    obtain ⟨rest, hrest⟩ := prefix_trimEndList (trimStartList cs)
    have hhead : (trimStartList cs).head? = some c := by
      rw [← hrest, List.head?_append, show (trimEndList (trimStartList cs)).head? = some c from hc]
      rfl
    have hfirst := List.head?_dropWhile_not isBlank cs
    rwa [show (cs.dropWhile isBlank).head? = some c from hhead] at hfirst
  · intro c hc
    have hne : trimList cs ≠ [] := by rintro h; simp [h] at hc
    have hlast := List.rdropWhile_last_not isBlank (trimStartList cs) hne
    rw [List.getLast?_eq_some_getLast hne] at hc
    obtain rfl := Option.some.inj hc
    exact Bool.eq_false_iff.mpr hlast

theorem trim_trim (s : String) : trim (trim s) = trim s := by
  rw [trim, trim, String.toList_ofList, (trimmed_trimList s.toList).trimList_eq]

theorem trimList_blank_append (h : ∀ c ∈ xs, isBlank c = true) (cs : List Char) :
    trimList (xs ++ cs) = trimList cs := by
  rw [trimList, trimStartList, List.dropWhile_append_of_pos h]
  rfl

theorem trimEndList_append_blank (h : ∀ c ∈ ys, isBlank c = true) (cs : List Char) :
    trimEndList (cs ++ ys) = trimEndList cs := by
  rw [trimEndList, List.reverse_append, List.dropWhile_append_of_pos (by simpa using h)]
  rfl

/-- Trimming at the end stops at what ends without a blank. -/
theorem trimEndList_append (h : ∀ c ∈ xs.getLast?, isBlank c = false) (cs : List Char) :
    trimEndList (xs ++ cs) = xs ++ trimEndList cs := by
  simp only [trimEndList, List.reverse_append, List.dropWhile_append]
  split
  case isTrue hnil =>
    have hfront : xs.reverse.dropWhile isBlank = xs.reverse := by
      cases hr : xs.reverse with
      | nil => rfl
      | cons c cs =>
        refine List.dropWhile_cons_of_neg ?_
        simp [h c (by rw [← List.head?_reverse, hr]; rfl)]
    rw [List.isEmpty_iff.mp hnil, hfront]
    simp
  case isFalse => simp

theorem exists_append_of_trimEndList (cs : List Char) :
    ∃ ys, (∀ c ∈ ys, isBlank c = true) ∧ trimEndList cs ++ ys = cs := by
  refine ⟨(cs.reverse.takeWhile isBlank).reverse, fun c hc => ?_, ?_⟩
  · exact List.mem_takeWhile_imp (List.mem_reverse.mp hc)
  · rw [trimEndList, ← List.reverse_append, List.takeWhile_append_dropWhile, List.reverse_reverse]

theorem trimList_append_blank (h : ∀ c ∈ ys, isBlank c = true) (cs : List Char) :
    trimList (cs ++ ys) = trimList cs := by
  simp only [trimList, trimStartList, List.dropWhile_append]
  split
  case isTrue hnil =>
    rw [List.isEmpty_iff.mp hnil, List.dropWhile_eq_nil_iff.mpr h]
  case isFalse => exact trimEndList_append_blank h _

@[simp] theorem trimList_trimEndList (cs : List Char) :
    trimList (trimEndList cs) = trimList cs := by
  obtain ⟨ys, hys, hcs⟩ := exists_append_of_trimEndList cs
  conv_rhs => rw [← hcs, trimList_append_blank hys]

theorem Trimmed.append (hx : Trimmed xs) (hy : Trimmed ys) (hxne : xs ≠ []) (hyne : ys ≠ []) :
    Trimmed (xs ++ ys) := by
  constructor
  · rw [List.head?_append_of_ne_nil _ hxne]; exact hx.1
  · rw [List.getLast?_append_of_ne_nil _ hyne]; exact hy.2

/-- A text without blanks has none at its ends. -/
theorem trimmed_of_no_blank (h : ∀ c ∈ cs, isBlank c = false) : Trimmed cs :=
  ⟨fun c hc => h c (List.mem_of_mem_head? hc), fun c hc => h c (List.mem_of_mem_getLast? hc)⟩

/-- Trimming leaves nothing of a text that is blank throughout, and of no other. -/
theorem trimList_eq_nil_iff : trimList cs = [] ↔ ∀ c ∈ cs, isBlank c = true := by
  rw [trimList, trimEndList_eq_rdropWhile, List.rdropWhile_eq_nil_iff]
  constructor
  · intro h c hc
    by_contra hblank
    have hmem : ∃ d ∈ trimStartList cs, isBlank d = false := by
      have hne : trimStartList cs ≠ [] := fun he => hblank (List.dropWhile_eq_nil_iff.mp he c hc)
      exact ⟨_, List.head_mem hne, List.head_dropWhile_not isBlank hne⟩
    obtain ⟨d, hd, hfalse⟩ := hmem
    simp [h d hd] at hfalse
  · intro h c hc
    exact h c ((suffix_trimStartList cs).subset hc)

end CompiledViews.Text
