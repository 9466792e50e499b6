import CompiledViews.Proofs.Except
import CompiledViews.Template.Tree
import Mathlib.Tactic.Common

/-! Positions in a template. Text that ends with a line feed moves the positions of what follows it
down by its lines and leaves their columns. Faults are reported at positions of the template. -/

namespace CompiledViews.Template

variable {cs : List Char} {g : Growth} {f : Fault}

/-- Where a text comes after lines that are ended, only the lines of its positions change. -/
theorem Position.at_append {front : List Char} (h : front = [] ∨ front.getLast? = some '\n')
    (cs : List Char) (n : ℕ) : Position.at (front ++ cs) (front.length + n) =
      ⟨(Position.at cs n).line + front.count '\n', (Position.at cs n).column⟩ := by
  rw [Position.at, List.take_length_add_append, List.count_append, List.reverse_append]
  have hcolumn : ((cs.take n).reverse ++ front.reverse).takeWhile (· ≠ '\n') =
      (cs.take n).reverse.takeWhile (· ≠ '\n') := by
    rcases h with rfl | hlast
    · simp
    · obtain ⟨before, rfl⟩ := List.getLast?_eq_some_iff.mp hlast
      rw [List.reverse_append, List.takeWhile_append]
      split
      case isTrue hall => rw [(List.takeWhile_prefix _).eq_of_length hall]; simp
      case isFalse => rfl
  rw [hcolumn, Position.at]
  simp only [Position.mk.injEq, and_true]
  omega

/-- There are no positions beyond the end of a text. -/
theorem Position.at_min (cs : List Char) (n : ℕ) :
    Position.at cs (min n cs.length) = Position.at cs n := by
  have hsame : cs.take (min n cs.length) = cs.take n := List.take_eq_take_iff.mpr (by simp)
  rw [Position.at, Position.at, hsame]

/-- Only a closing tag of another name than its block is at fault, and it is so where it stands. -/
lemma Growth.position_of_addTag {t : Tag} (h : g.addTag cs t = .error f) :
    ∀ p ∈ f.position?, p = Position.at cs t.start := by
  obtain ⟨start, stop, role, trimsBefore, trimsAfter⟩ := t
  obtain ⟨nodes, pending⟩ := g
  cases role with
  | closeBlock name | closeRaw name | closeDecorator name | closePartial name =>
    rcases pending with - | ⟨⟨⟩ | ⟨⟩ | ⟨⟩, rest⟩ <;> simp only [addTag, reduceCtorEq] at h
    all_goals
      split at h <;> cases h
      simp [Fault.position?]
  | elseBlock call =>
    rcases call with - | call <;> rcases pending with - | ⟨⟨⟩ | ⟨⟩ | ⟨⟩, rest⟩ <;> cases h
  | _ => cases h

lemma Growth.exists_position_of_add {s : Segment} (h : g.add cs s = .error f) :
    ∀ p ∈ f.position?, ∃ n, p = Position.at cs n := by
  cases s with
  | text s => cases h
  | tag t =>
    rw [add] at h
    split at h
    · cases h
      simp [Fault.position?]
    · exact fun p hp => ⟨t.start, position_of_addTag h p hp⟩

/-- A fault of a template is at a place of its text, or has no place. -/
theorem exists_position_of_parse {s : String} (h : parse s = .error f) :
    ∀ p ∈ f.position?, ∃ n ≤ s.toList.length, p = Position.at s.toList n := by
  have hplace : ∀ p ∈ f.position?, ∃ n, p = Position.at s.toList n := by
    unfold parse at h
    simp only at h
    split at h
    case h_1 place _ =>
      cases h
      intro p hp
      exact ⟨place, (Option.some.inj hp).symm⟩
    case h_2 tags _ =>
      rcases Except.bind_eq_error_iff.mp h with hfold | ⟨g, -, hret⟩
      · obtain ⟨s', -, g, hadd⟩ := Except.exists_of_foldlM_eq_error hfold
        exact Growth.exists_position_of_add hadd
      · cases hret
  intro p hp
  obtain ⟨n, rfl⟩ := hplace p hp
  exact ⟨min n s.toList.length, Nat.min_le_right .., (Position.at_min ..).symm⟩

/-- Nothing is wrong with a template without text. -/
theorem parse_empty : parse (String.ofList []) = .ok [] := rfl

end CompiledViews.Template
