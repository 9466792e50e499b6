/-! Cutting a text at its separators. -/

namespace CompiledViews.Text

/-- The pieces between the characters that `p` picks. There is always one piece. -/
def splitList (p : Char → Bool) : List Char → List (List Char)
  | [] => [[]]
  | c :: cs =>
    if p c then [] :: splitList p cs
    else match splitList p cs with
      | [] => [[c]]
      | piece :: pieces => (c :: piece) :: pieces

theorem splitList_ne_nil (p : Char → Bool) (cs : List Char) : splitList p cs ≠ [] := by
  cases cs with
  | nil => simp [splitList]
  | cons c cs => by_cases h : p c <;> simp [splitList, h]; split <;> simp

theorem not_mem_of_mem_splitList {p : Char → Bool} {cs piece : List Char}
    (h : piece ∈ splitList p cs) : ∀ c ∈ piece, p c = false := by
  induction cs generalizing piece with
  | nil => simp_all [splitList]
  | cons c cs ih =>
    by_cases hc : p c
    · simp only [splitList, hc, if_true, List.mem_cons] at h
      rcases h with rfl | h
      · simp
      · exact ih h
    · cases hs : splitList p cs with
      | nil => exact absurd hs (splitList_ne_nil p cs)
      | cons a as =>
        have h' : piece = c :: a ∨ piece ∈ as := by simpa [splitList, hc, hs] using h
        rcases h' with rfl | h
        · intro d hd
          rcases List.mem_cons.1 hd with rfl | hd
          · simpa using hc
          · exact ih (by simp [hs]) d hd
        · exact ih (by simp [hs, h])

/-- The pieces of a string. -/
def split (p : Char → Bool) (s : String) : List String :=
  (splitList p s.toList).map String.ofList

example : splitList (· = ',') "a,,b".toList = [['a'], [], ['b']] := by decide

end CompiledViews.Text
