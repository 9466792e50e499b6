import CompiledViews.Template.Grammar
import Mathlib.Tactic.Common

/-!
What rules read. Neither the sense in which a rule is tried nor the furthest place so far has a say
in that, so both are left out here.
-/

namespace CompiledViews.Template.Grammar.Rule

variable {α β : Type} {p q : Rule α} {f : α → Rule β} {a : α} {b : β} {c c' c'' : Cursor}

/-- A rule applies at a cursor, with a value, and leads to another cursor. -/
def Reads (p : Rule α) (c : Cursor) (a : α) (c' : Cursor) : Prop :=
  ∀ s far, ∃ far', p s c far = (some (a, c'), far')

/-- A rule does not apply at a cursor. -/
def Refuses (p : Rule α) (c : Cursor) : Prop := ∀ s far, ∃ far', p s c far = (none, far')

theorem reads_pure (a : α) (c : Cursor) : (Pure.pure a : Rule α).Reads c a c :=
  fun _ far => ⟨far, rfl⟩

theorem refuses_refuse (c : Cursor) : (refuse : Rule α).Refuses c := fun _ far => ⟨far, rfl⟩

theorem reads_cursor (c : Cursor) : cursor.Reads c c c := fun _ far => ⟨far, rfl⟩

/-! One rule after another. -/

theorem Reads.bind (hp : p.Reads c a c') (hf : (f a).Reads c' b c'') : (p >>= f).Reads c b c'' := by
  intro s far
  obtain ⟨far', hfar⟩ := hp s far
  show ∃ _, Rule.bind p f s c far = _
  rw [Rule.bind, hfar]
  exact hf s far'

theorem Refuses.bind (hp : p.Refuses c) : (p >>= f).Refuses c := by
  intro s far
  obtain ⟨far', hfar⟩ := hp s far
  show ∃ _, Rule.bind p f s c far = _
  rw [Rule.bind, hfar]
  exact ⟨far', rfl⟩

theorem Reads.bind_refuses (hp : p.Reads c a c') (hf : (f a).Refuses c') : (p >>= f).Refuses c := by
  intro s far
  obtain ⟨far', hfar⟩ := hp s far
  show ∃ _, Rule.bind p f s c far = _
  rw [Rule.bind, hfar]
  exact hf s far'

/-! One rule or another. -/

theorem Reads.orElse (hp : p.Reads c a c') : (p <|> q).Reads c a c' := by
  intro s far
  obtain ⟨far', hfar⟩ := hp s far
  show ∃ _, Rule.orElse p (fun _ => q) s c far = _
  rw [Rule.orElse, hfar]
  exact ⟨far', rfl⟩

theorem Refuses.orElse_reads (hp : p.Refuses c) (hq : q.Reads c a c') : (p <|> q).Reads c a c' := by
  intro s far
  obtain ⟨far', hfar⟩ := hp s far
  show ∃ _, Rule.orElse p (fun _ => q) s c far = _
  rw [Rule.orElse, hfar]
  exact hq s far'

theorem Refuses.orElse (hp : p.Refuses c) (hq : q.Refuses c) : (p <|> q).Refuses c := by
  intro s far
  obtain ⟨far', hfar⟩ := hp s far
  show ∃ _, Rule.orElse p (fun _ => q) s c far = _
  rw [Rule.orElse, hfar]
  exact hq s far'

/-! A rule around another. -/

theorem Reads.construct (hp : p.Reads c a c') : (Rule.construct p).Reads c a c' := by
  intro s far
  obtain ⟨far', hfar⟩ := hp s far
  unfold Rule.construct
  cases s <;> exact ⟨_, by rw [hfar]⟩

theorem Refuses.construct (hp : p.Refuses c) : (Rule.construct p).Refuses c := by
  intro s far
  obtain ⟨far', hfar⟩ := hp s far
  unfold Rule.construct
  cases s <;> exact ⟨_, by rw [hfar]⟩

theorem Refuses.absent (hp : p.Refuses c) : (Rule.absent p).Reads c () c := by
  intro s far
  obtain ⟨far', hfar⟩ := hp s.flip far
  exact ⟨far', by rw [Rule.absent, hfar]⟩

theorem Reads.absent (hp : p.Reads c a c') : (Rule.absent p).Refuses c := by
  intro s far
  obtain ⟨far', hfar⟩ := hp s.flip far
  exact ⟨far', by rw [Rule.absent, hfar]⟩

theorem Reads.optional (hp : p.Reads c a c') : (Rule.optional p).Reads c (some a) c' := by
  intro s far
  obtain ⟨far', hfar⟩ := hp s far
  exact ⟨far', by rw [Rule.optional, hfar]⟩

theorem Refuses.optional (hp : p.Refuses c) : (Rule.optional p).Reads c none c := by
  intro s far
  obtain ⟨far', hfar⟩ := hp s far
  exact ⟨far', by rw [Rule.optional, hfar]⟩

/-- A rule applies again and again, to less and less text, until it does not apply any more. -/
inductive Repeats (p : Rule α) : Cursor → List α → Cursor → Prop
  | stop {c : Cursor} : p.Refuses c → Repeats p c [] c
  | step {c c' c'' : Cursor} {a : α} {as : List α} : p.Reads c a c' →
      c'.rest.length < c.rest.length → Repeats p c' as c'' → Repeats p c (a :: as) c''

variable {as : List α}

theorem Repeats.reads_repeatUpTo (h : p.Repeats c as c') {fuel : ℕ}
    (hfuel : c.rest.length ≤ fuel) : (repeatUpTo fuel p).Reads c as c' := by
  induction h generalizing fuel with
  | stop hp =>
    cases fuel with
    | zero => exact reads_pure _ _
    | succ fuel =>
      intro s far
      obtain ⟨far', hfar⟩ := hp s far
      exact ⟨far', by simp only [repeatUpTo, hfar]⟩
  | @step c c' c'' a as hp hlt _ ih =>
    obtain ⟨fuel, rfl⟩ : ∃ n, fuel = n + 1 := ⟨fuel - 1, by omega⟩
    intro s far
    obtain ⟨far', hfar⟩ := hp s far
    obtain ⟨far'', hrest⟩ := ih (show c'.rest.length ≤ fuel by omega) s far'
    exact ⟨far'', by simp only [repeatUpTo, hfar, hrest]⟩

theorem Repeats.many (h : p.Repeats c as c') : (Rule.many p).Reads c as c' :=
  fun s far => h.reads_repeatUpTo (Nat.le_refl _) s far

theorem Refuses.many (hp : p.Refuses c) : (Rule.many p).Reads c [] c := (Repeats.stop hp).many

/-! Characters and words. -/

variable {test : Char → Bool} {x : Char} {word cs rest : List Char} {place : Nat}

theorem reads_char (h : test x = true) : (char test).Reads ⟨x :: rest, place⟩ x ⟨rest, place + 1⟩ :=
  fun _ far => ⟨far, by simp [char, h]⟩

theorem refuses_char (h : ∀ x ∈ c.rest.head?, test x = false) : (char test).Refuses c := by
  obtain ⟨rest, place⟩ := c
  intro s far
  cases rest with
  | nil => exact ⟨far, rfl⟩
  | cons x rest => exact ⟨far, by simp [char, h x rfl]⟩

theorem reads_exactly (word rest : List Char) (place : Nat) :
    (exactly word).Reads ⟨word ++ rest, place⟩ () ⟨rest, place + word.length⟩ := by
  intro s far
  have hprefix : word.isPrefixOf (word ++ rest) = true :=
    List.isPrefixOf_iff_prefix.mpr (List.prefix_append word rest)
  exact ⟨far, by simp [exactly, hprefix]⟩

theorem refuses_exactly (h : ¬ word <+: c.rest) : (exactly word).Refuses c := by
  intro s far
  have hprefix : word.isPrefixOf c.rest = false := by
    rw [Bool.eq_false_iff, Ne, List.isPrefixOf_iff_prefix]
    exact h
  exact ⟨far, by simp [exactly, hprefix]⟩

/-- A word that begins with another character than the text is not read. -/
theorem refuses_exactly_cons (h : ∀ y ∈ c.rest.head?, y ≠ x) (word : List Char) :
    (exactly (x :: word)).Refuses c := by
  refine refuses_exactly fun ⟨tail, htail⟩ => ?_
  exact h x (by rw [← htail]; rfl) rfl

theorem reads_skipWhile (hcs : ∀ x ∈ cs, test x = true) (hrest : ∀ x ∈ rest.head?, test x = false)
    (place : Nat) :
    (skipWhile test).Reads ⟨cs ++ rest, place⟩ cs ⟨rest, place + cs.length⟩ := by
  intro s far
  have htake : (cs ++ rest).takeWhile test = cs := by
    rw [List.takeWhile_append_of_pos hcs]
    cases rest with
    | nil => simp
    | cons x rest => simp [hrest x rfl]
  have hdrop : (cs ++ rest).dropWhile test = rest := by
    rw [List.dropWhile_append_of_pos hcs]
    cases rest with
    | nil => rfl
    | cons x rest => simp [hrest x rfl]
  exact ⟨far, by simp [skipWhile, htake, hdrop]⟩

theorem reads_some1 (hne : cs ≠ []) (hcs : ∀ x ∈ cs, test x = true)
    (hrest : ∀ x ∈ rest.head?, test x = false) (place : Nat) :
    (some1 test).Reads ⟨cs ++ rest, place⟩ cs ⟨rest, place + cs.length⟩ := by
  refine (reads_skipWhile hcs hrest place).bind ?_
  rw [if_neg (by simpa using hne)]
  exact reads_pure _ _

theorem refuses_some1 (h : ∀ x ∈ c.rest.head?, test x = false) : (some1 test).Refuses c := by
  have hskip : (skipWhile test).Reads c [] c :=
    reads_skipWhile (List.forall_mem_nil _) h c.place
  exact hskip.bind_refuses (refuses_refuse c)

theorem reads_spaces (hcs : ∀ x ∈ cs, isSpace x = true)
    (hrest : ∀ x ∈ rest.head?, isSpace x = false) (place : Nat) :
    spaces.Reads ⟨cs ++ rest, place⟩ () ⟨rest, place + cs.length⟩ :=
  (reads_skipWhile hcs hrest place).bind (reads_pure _ _)

/-- Blanks up to the end are skipped. -/
theorem reads_spaces_all (h : ∀ x ∈ c.rest, isSpace x = true) :
    spaces.Reads c () ⟨[], c.place + c.rest.length⟩ := by
  have hnil : ∀ x ∈ ([] : List Char).head?, isSpace x = false := by simp
  have hread := reads_spaces h hnil c.place
  rwa [List.append_nil] at hread

/-- Where there are no blanks, none are skipped. -/
theorem reads_spaces_nil (h : ∀ x ∈ c.rest.head?, isSpace x = false) : spaces.Reads c () c :=
  reads_spaces (List.forall_mem_nil _) h c.place

end CompiledViews.Template.Grammar.Rule
