import CompiledViews.Proofs.Text.Blank
import CompiledViews.Text.Lines

/-! Lines. A text made of lines that end in line feeds is cut into these lines again, and into those
of whatever follows; and what a line holds, once it is trimmed, goes on a line. -/

namespace CompiledViews.Text

variable {line front rest cs : List Char}

theorem linesList_cons_line (h : '\n' ∉ line) (rest : List Char) :
    linesList (line ++ '\n' :: rest) = (line ++ ['\n']) :: linesList rest := by
  induction line with
  | nil => simp [linesList]
  | cons c cs ih =>
    rw [List.mem_cons, not_or] at h
    simp [linesList, Ne.symm h.1, ih h.2]

/-- Lines that end in line feeds, before the lines of a text. -/
theorem linesList_flatMap_append {lines : List (List Char)} (h : ∀ line ∈ lines, '\n' ∉ line)
    (rest : List Char) :
    linesList (lines.flatMap (· ++ ['\n']) ++ rest) =
      lines.map (· ++ ['\n']) ++ linesList rest := by
  induction lines with
  | nil => rfl
  | cons line lines ih =>
    have htail := ih fun l hl => h l (List.mem_cons_of_mem _ hl)
    have hcut := linesList_cons_line (h line List.mem_cons_self)
      (lines.flatMap (· ++ ['\n']) ++ rest)
    rw [htail] at hcut
    simpa using hcut

/-- A line is a text on one line, which may be ended. -/
theorem exists_of_mem_linesList (h : line ∈ linesList cs) :
    ∃ front, '\n' ∉ front ∧ (line = front ∨ line = front ++ ['\n']) := by
  induction cs generalizing line with
  | nil => simp [linesList] at h
  | cons c cs ih =>
    by_cases hc : c = '\n'
    · subst hc
      rw [linesList, if_pos rfl, List.mem_cons] at h
      rcases h with rfl | h
      · exact ⟨[], by simp, .inr rfl⟩
      · exact ih h
    · rw [linesList, if_neg hc] at h
      cases hl : linesList cs with
      | nil =>
        rw [hl] at h
        obtain rfl := List.mem_singleton.mp h
        exact ⟨[c], by simpa using Ne.symm hc, .inl rfl⟩
      | cons first others =>
        rw [hl] at h ih
        rcases List.mem_cons.mp h with rfl | h
        · obtain ⟨front, hfront, hend⟩ := ih List.mem_cons_self
          refine ⟨c :: front, by simp [Ne.symm hc, hfront], hend.imp (congrArg _) (congrArg _)⟩
        · exact ih (List.mem_cons_of_mem _ h)

/-- A line feed ends a line, whatever comes after it. -/
theorem linesList_append_newline (cs rest : List Char) :
    linesList (cs ++ '\n' :: rest) = linesList (cs ++ ['\n']) ++ linesList rest := by
  induction cs with
  | nil => simp [linesList]
  | cons c cs ih =>
    by_cases hc : c = '\n'
    · simp [linesList, hc, ih]
    · have hne : linesList (cs ++ ['\n']) ≠ [] := by
        intro hnil
        have hflat := linesList_flatten (cs ++ ['\n'])
        simp [hnil] at hflat
      obtain ⟨line, lines, hlines⟩ := List.exists_cons_of_ne_nil hne
      simp [linesList, hc, ih, hlines]

/-- What stands on one line stands on the first line of a text that begins with it. -/
theorem linesList_append (hne : front ≠ []) (hfront : '\n' ∉ front) (rest : List Char) :
    linesList (front ++ rest) =
      (front ++ (linesList rest).headD []) :: (linesList rest).tail := by
  induction front with
  | nil => exact absurd rfl hne
  | cons c front ih =>
    rw [List.mem_cons, not_or] at hfront
    rw [List.cons_append, linesList, if_neg (Ne.symm hfront.1)]
    by_cases hnil : front = []
    · subst hnil
      cases h : linesList rest <;> simp [h]
    · rw [ih hnil hfront.2]
      simp

/-- A text is one line that is not ended, or it begins with a line that is. -/
lemma lines_cases (cs : List Char) :
    cs = [] ∨ cs ≠ [] ∧ '\n' ∉ cs ∨ ∃ line rest, '\n' ∉ line ∧ cs = line ++ '\n' :: rest := by
  by_cases hmem : '\n' ∈ cs
  · obtain ⟨line, rest, rfl, hline⟩ := List.eq_append_cons_of_mem hmem
    exact .inr (.inr ⟨line, rest, hline, rfl⟩)
  · by_cases hnil : cs = []
    · exact .inl hnil
    · exact .inr (.inl ⟨hnil, hmem⟩)

lemma linesList_of_not_mem (hne : cs ≠ []) (h : '\n' ∉ cs) : linesList cs = [cs] := by
  simpa [linesList] using linesList_append hne h []

/-- A text can be cut after any of its lines: both parts have the lines that they had, and the
first ends with a line feed, unless there is nothing before or after it. -/
theorem linesList_cut (cs : List Char) (n : ℕ) :
    linesList ((linesList cs).take n).flatten = (linesList cs).take n ∧
      linesList ((linesList cs).drop n).flatten = (linesList cs).drop n ∧
      (((linesList cs).take n).flatten = [] ∨
        ((linesList cs).take n).flatten.getLast? = some '\n' ∨
        ((linesList cs).drop n).flatten = []) := by
  induction n generalizing cs with
  | zero => exact ⟨rfl, by simp [linesList_flatten], .inl rfl⟩
  | succ n ih =>
    rcases lines_cases cs with rfl | ⟨hne, hline⟩ | ⟨line, rest, hline, rfl⟩
    · simp [linesList]
    · simp [linesList_of_not_mem hne hline, linesList]
    · obtain ⟨hfront, hback, hend⟩ := ih rest
      rw [linesList_cons_line hline, List.take_succ_cons, List.drop_succ_cons, List.flatten_cons]
      refine ⟨?_, hback, .inr ?_⟩
      · rw [List.append_assoc, List.singleton_append, linesList_cons_line hline, hfront]
      · rcases hend with hnil | hlast | hnil
        · exact .inl (by simp [hnil])
        · exact .inl (by rw [List.getLast?_append, hlast]; rfl)
        · exact .inr hnil

/-- A text whose last line is ended has a line for each of its line feeds. -/
theorem length_linesList_append_newline (cs : List Char) :
    (linesList (cs ++ ['\n'])).length = cs.count '\n' + 1 := by
  induction cs with
  | nil => rfl
  | cons c cs ih =>
    by_cases hc : c = '\n'
    · simp [linesList, hc, ih]
    · cases hlines : linesList (cs ++ ['\n']) with
      | nil => simp [hlines] at ih
      | cons line lines =>
        rw [hlines] at ih
        simpa [linesList, hc, hlines] using ih

theorem length_linesList (h : cs = [] ∨ cs.getLast? = some '\n') :
    (linesList cs).length = cs.count '\n' := by
  rcases h with rfl | hlast
  · rfl
  · obtain ⟨front, rfl⟩ := List.getLast?_eq_some_iff.mp hlast
    rw [length_linesList_append_newline]
    simp

theorem infix_of_mem_linesList (h : line ∈ linesList cs) : line <:+: cs := by
  obtain ⟨before, after, hlines⟩ := List.append_of_mem h
  refine ⟨before.flatten, after.flatten, ?_⟩
  have hflat := linesList_flatten cs
  rw [hlines] at hflat
  simpa using hflat

/-- A trimmed line holds no line feed. -/
theorem newline_not_mem_trimList (h : line ∈ linesList cs) : '\n' ∉ trimList line := by
  obtain ⟨front, hfront, rfl | rfl⟩ := exists_of_mem_linesList h
  · exact fun hmem => hfront ((infix_trimList line).subset hmem)
  · rw [trimList_append_blank (by simp; decide)]
    exact fun hmem => hfront ((infix_trimList front).subset hmem)

theorem stripLineEnd_eq_rdropWhile (line : List Char) :
    stripLineEnd line = line.rdropWhile fun c => c = '\r' || c = '\n' := rfl

theorem stripLineEnd_isPrefix (line : List Char) : stripLineEnd line <+: line :=
  List.rdropWhile_prefix _ _

/-- The end of a line does not take away from a text that is trimmed. -/
theorem stripLineEnd_newline (h : Trimmed line) : stripLineEnd (line ++ ['\n']) = line := by
  rw [stripLineEnd_eq_rdropWhile, List.rdropWhile_concat_pos _ _ _ (by simp),
    List.rdropWhile_eq_self_iff]
  intro hne hend
  have hlast := h.2 _ (List.getLast?_eq_some_getLast hne)
  generalize line.getLast hne = c at hend hlast
  have hblank : isBlank c = true := by
    rcases (by simpa using hend : c = '\r' ∨ c = '\n') with rfl | rfl <;> decide
  rw [hblank] at hlast
  cases hlast

/-- What holds no line feed stands before one or after it. -/
lemma infix_cases {word : List Char} (hword : '\n' ∉ word) (h : word <:+: cs ++ '\n' :: rest) :
    word <:+: cs ∨ word <:+: rest := by
  obtain ⟨before, after, h⟩ := h
  rcases List.append_eq_append_iff.mp h with ⟨mid, hcs, -⟩ | ⟨mid, hword', hrest⟩
  · exact .inl ⟨before, mid, hcs.symm⟩
  · rcases List.append_eq_append_iff.mp hword' with ⟨mid', hcs, hmid⟩ | ⟨mid', hbefore, hmid⟩
    · -- the word begins before the line feed, so it ends there too
      cases mid with
      | nil => exact .inl ⟨before, [], by simpa [hmid] using hcs.symm⟩
      | cons c mid =>
        obtain rfl : '\n' = c := (List.cons.inj hrest).1
        exact absurd (hmid ▸ List.mem_append_right mid' List.mem_cons_self) hword
    · cases mid' with
      | nil =>
        cases word with
        | nil => exact .inl List.nil_infix
        | cons c word =>
          obtain rfl : '\n' = c := by
            rw [hmid] at hrest
            exact (List.cons.inj hrest).1
          exact absurd List.mem_cons_self hword
      | cons c mid' =>
        rw [hmid] at hrest
        exact .inr ⟨mid', after, by simpa using (List.cons.inj hrest).2.symm⟩

/-- A text that can stand as a value on a line: not empty, on one line, and trimmed. -/
structure Inline (s : String) : Prop where
  ne_nil : s.toList ≠ []
  oneLine : '\n' ∉ s.toList
  trimmed : Trimmed s.toList

namespace Inline

variable {s t : String}

theorem trim_eq (h : Inline s) : trim s = s := by
  rw [trim, h.trimmed.trimList_eq, String.ofList_toList]

lemma exists_not_blank (h : Inline s) : ∃ c ∈ s.toList, isBlank c = false := by
  by_contra hall
  have hnil : trimList s.toList = [] := trimList_eq_nil_iff.mpr (by simpa using hall)
  exact h.ne_nil (h.trimmed.trimList_eq ▸ hnil)

theorem append (hs : Inline s) (ht : Inline t) : Inline (s ++ t) where
  ne_nil := by simp [hs.ne_nil]
  oneLine := by simp [hs.oneLine, ht.oneLine]
  trimmed := by
    rw [String.toList_append]
    exact hs.trimmed.append ht.trimmed hs.ne_nil ht.ne_nil

/-- A text of characters none of which is blank. -/
theorem of_no_blank (hne : s.toList ≠ []) (h : s.toList.any isBlank = false) : Inline s where
  ne_nil := hne
  oneLine := fun hmem => List.any_eq_false.mp h _ hmem (by decide)
  trimmed := trimmed_of_no_blank (by simpa using h)

end Inline

end CompiledViews.Text
