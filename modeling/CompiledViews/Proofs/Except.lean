import CompiledViews.Proofs.List

/-! What is known of computations that may fail when their result is. -/

namespace CompiledViews.Except

universe u

variable {ε ε' : Type*} {α β : Type u} {x : Except ε α}

@[simp] theorem ok_bind (a : α) (f : α → Except ε β) : ((.ok a : Except ε α) >>= f) = f a := rfl

theorem bind_eq_ok_iff {f : α → Except ε β} {b : β} :
    (x >>= f) = .ok b ↔ ∃ a, x = .ok a ∧ f a = .ok b := by
  cases x with
  | error e => simp [bind, Except.bind]
  | ok a => simp [bind, Except.bind]

theorem bind_eq_error_iff {f : α → Except ε β} {e : ε} :
    (x >>= f) = .error e ↔ x = .error e ∨ ∃ a, x = .ok a ∧ f a = .error e := by
  cases x with
  | error e => simp [bind, Except.bind]
  | ok a => simp [bind, Except.bind]

theorem mapError_eq_ok_iff {f : ε → ε'} {a : α} : x.mapError f = .ok a ↔ x = .ok a := by
  cases x <;> simp [Except.mapError]

theorem map_eq_ok_iff {f : α → β} {b : β} : x.map f = .ok b ↔ ∃ a, x = .ok a ∧ f a = b := by
  cases x <;> simp [Except.map]

theorem map_eq_error_iff {f : α → β} {e : ε} : x.map f = .error e ↔ x = .error e := by
  cases x <;> simp [Except.map]

theorem mapM_eq_ok_iff {γ : Type*} {f : γ → Except ε β} {as : List γ} {bs : List β} :
    as.mapM f = .ok bs ↔ List.Forall₂ (fun a b => f a = .ok b) as bs := by
  induction as generalizing bs with
  | nil =>
    rw [List.mapM_nil, List.forall₂_nil_left_iff]
    exact ⟨fun h => (Except.ok.inj h).symm, fun h => h ▸ rfl⟩
  | cons a as ih =>
    rw [List.mapM_cons, bind_eq_ok_iff, List.forall₂_cons_left_iff]
    refine exists_congr fun b => ?_
    rw [bind_eq_ok_iff, ← exists_and_left]
    refine exists_congr fun bs' => ?_
    rw [ih, eq_comm (a := bs)]
    exact and_congr_right' (and_congr_right' ⟨Except.ok.inj, congrArg _⟩)

/-- Each result comes from one of the arguments. -/
theorem mem_of_mapM_eq_ok {γ : Type*} {f : γ → Except ε β} {as : List γ} {bs : List β}
    (h : as.mapM f = .ok bs) : ∀ b ∈ bs, ∃ a ∈ as, f a = .ok b :=
  exists_of_mem_right (mapM_eq_ok_iff.mp h)

/-- All succeed, or one that fails makes all fail. -/
theorem mapM_cases {γ : Type*} (f : γ → Except ε β) (as : List γ) :
    (∃ bs, as.mapM f = .ok bs) ∨ ∃ a ∈ as, ∃ e, f a = .error e ∧ as.mapM f = .error e := by
  induction as with
  | nil => exact .inl ⟨[], rfl⟩
  | cons a as ih =>
    rw [List.mapM_cons, List.exists_mem_cons_iff]
    cases hfirst : f a with
    | error e => exact .inr (.inl ⟨e, rfl, rfl⟩)
    | ok b =>
      rcases ih with ⟨bs, hbs⟩ | ⟨a', ha', e, hfails, hrest⟩
      · exact .inl ⟨b :: bs, by rw [ok_bind, hbs]; rfl⟩
      · exact .inr (.inr ⟨a', ha', e, hfails, by rw [ok_bind, hrest]; rfl⟩)

/-- A fold fails where one of its steps does. -/
theorem exists_of_foldlM_eq_error {γ : Type*} {f : β → γ → Except ε β} {as : List γ} {b : β} {e : ε}
    (h : as.foldlM f b = .error e) : ∃ a ∈ as, ∃ b, f b a = .error e := by
  induction as generalizing b with
  | nil => cases h
  | cons a as ih =>
    rw [List.foldlM_cons, bind_eq_error_iff] at h
    rcases h with hfirst | ⟨b', -, hrest⟩
    · exact ⟨a, List.mem_cons_self, b, hfirst⟩
    · obtain ⟨a', ha', hfails⟩ := ih hrest
      exact ⟨a', List.mem_cons_of_mem _ ha', hfails⟩

/-- Both succeed with related results, or both fail for related reasons. -/
inductive Alike {ε α : Type*} (E : ε → ε → Prop) (A : α → α → Prop) :
    Except ε α → Except ε α → Prop
  | ok {a a'} : A a a' → Alike E A (.ok a) (.ok a')
  | error {e e'} : E e e' → Alike E A (.error e) (.error e')

end CompiledViews.Except
