import CompiledViews.Text.Split
import Mathlib.Data.List.Basic

/-! Cutting at separators. What stands on either side of a separator is cut as on its own, and a
piece without separators is not cut. -/

namespace CompiledViews.Text

variable {p : Char → Bool} {sep : Char} {xs cs : List Char}

theorem splitList_cons_of_pos (h : p sep = true) (cs : List Char) :
    splitList p (sep :: cs) = [] :: splitList p cs := by
  rw [splitList, if_pos h]

theorem splitList_cons_of_neg {c : Char} (h : p c = false) (cs : List Char) :
    splitList p (c :: cs) = (splitList p cs).modifyHead (c :: ·) := by
  rw [splitList, if_neg (by simp [h])]
  cases hs : splitList p cs with
  | nil => exact absurd hs (splitList_ne_nil p cs)
  | cons piece pieces => rfl

theorem splitList_append_of_forall (h : ∀ c ∈ xs, p c = false) (cs : List Char) :
    splitList p (xs ++ cs) = (splitList p cs).modifyHead (xs ++ ·) := by
  induction xs with
  | nil => exact (congrFun List.modifyHead_id _).symm
  | cons x xs ih =>
    rw [List.forall_mem_cons] at h
    rw [List.cons_append, splitList_cons_of_neg h.1, ih h.2, List.modifyHead_modifyHead]
    rfl

theorem splitList_append_sep (h : p sep = true) (xs cs : List Char) :
    splitList p (xs ++ sep :: cs) = splitList p xs ++ splitList p cs := by
  induction xs with
  | nil => rw [List.nil_append, splitList_cons_of_pos h]; rfl
  | cons x xs ih =>
    cases hx : p x with
    | true => rw [List.cons_append, splitList_cons_of_pos hx, splitList_cons_of_pos hx, ih]; rfl
    | false =>
      rw [List.cons_append, splitList_cons_of_neg hx, splitList_cons_of_neg hx, ih]
      cases hs : splitList p xs with
      | nil => exact absurd hs (splitList_ne_nil p xs)
      | cons piece pieces => rfl

theorem splitList_eq_singleton (h : ∀ c ∈ xs, p c = false) : splitList p xs = [xs] := by
  have hcut := splitList_append_of_forall h []
  rwa [List.append_nil, splitList, List.modifyHead_cons, List.append_nil] at hcut

/-- Pieces that each stand after a separator are the pieces after the first, which is empty. -/
theorem splitList_flatMap (hsep : p sep = true) {pieces : List (List Char)}
    (h : ∀ piece ∈ pieces, ∀ c ∈ piece, p c = false) :
    splitList p (pieces.flatMap (sep :: ·)) = [] :: pieces := by
  induction pieces with
  | nil => rfl
  | cons piece pieces ih =>
    rw [List.forall_mem_cons] at h
    rw [List.flatMap_cons, List.cons_append, splitList_cons_of_pos hsep,
      splitList_append_of_forall h.1, ih h.2, List.modifyHead_cons, List.append_nil]

/-- The pieces, joined by the one separator there is, are the text. -/
theorem eq_append_flatMap_of_splitList (hsep : ∀ c, p c = true → c = sep) {piece : List Char}
    {pieces : List (List Char)} (h : splitList p cs = piece :: pieces) :
    cs = piece ++ pieces.flatMap (sep :: ·) := by
  induction cs generalizing piece pieces with
  | nil =>
    obtain ⟨rfl, rfl⟩ := List.cons.inj h
    rfl
  | cons c cs ih =>
    obtain ⟨first, others, hcs⟩ := List.exists_cons_of_ne_nil (splitList_ne_nil p cs)
    cases hc : p c with
    | true =>
      rw [splitList_cons_of_pos hc, hcs] at h
      obtain ⟨rfl, rfl⟩ := List.cons.inj h
      rw [List.nil_append, List.flatMap_cons, ih hcs, hsep c hc]
      rfl
    | false =>
      rw [splitList_cons_of_neg hc, hcs, List.modifyHead_cons] at h
      obtain ⟨rfl, rfl⟩ := List.cons.inj h
      rw [List.cons_append, ← ih hcs]

end CompiledViews.Text
