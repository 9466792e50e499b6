import CompiledViews.Proofs.Cache.Compiles

/-!
Periods in which the entry of a key is not taken out. An entry is never replaced, so in such a
period at most one view is made and stored for the key.
-/

namespace CompiledViews

namespace Cache

variable {c : Cache} {t : FileTree} {who : Caller} {q : Request} {o : Outcome}

/-- A call that has made a view is about to store it. -/
lemma Move.stage_of_made {key : String} {content : Content} {v : View}
    (h : c.Move t who q (.making (.ok content)) o) (hq : q.key? = some key)
    (hmade : (c.make key content).1 = .ok v) : o.stage = .storing v := by
  cases h with
  | @fails _ key' _ e hq' hfail =>
    obtain rfl : key' = key := Option.some.inj (hq'.symm.trans hq)
    rw [hmade] at hfail
    cases hfail
  | @makes _ key' _ v' hq' hv =>
    obtain rfl : key' = key := Option.some.inj (hq'.symm.trans hq)
    rw [hmade] at hv
    cases hv
    rfl

end Cache

namespace Run

variable (r : Run)

/-- In turn `t` the entry of a key is taken out. -/
def Removes (key : String) (t : ℕ) : Prop :=
  r.entryAt key t ≠ none ∧ r.entryAt key (t + 1) ≠ r.entryAt key t

/-- Between turns `a` and `z` no entry of a key is taken out. -/
def Undisturbed (key : String) (a z : ℕ) : Prop := ∀ u, a < u → u < z → ¬ r.Removes key u

/-- At some time between turns `a` and `z` a view is the entry of a key. -/
def EntryIn (key : String) (a z : ℕ) (id : Nat) : Prop :=
  ∃ u, a < u ∧ u ≤ z ∧ r.entryAt key u = some id

variable {r} {key : String} {who who' : Caller} {q q' : Request} {b b' t u m m' a z : ℕ}
  {v v' : View} {id id' : Nat} {content content' : Content}

/-- A view that is about to be stored finds no entry. -/
theorem Steps.entryAt_eq_none (h : r.Steps who q b t (.storing v)) (hq : q.key? = some key) :
    r.entryAt key t = none :=
  (r.coherent t).absent who q _ key h.1.call? rfl hq

/-- The entry of a key stays until it is taken out. -/
lemma entryAt_of_undisturbed (he : r.entryAt key t = some id) (ht : a < t) (htu : t ≤ u)
    (hu : u ≤ z) (hperiod : r.Undisturbed key a z) : r.entryAt key u = some id := by
  induction htu with
  | refl => exact he
  | @step u htu ih =>
    have hsame := ih (Nat.le_of_succ_le hu)
    have hno := hperiod u (Nat.lt_of_lt_of_le ht htu) hu
    simp only [Removes, hsame, ne_eq, reduceCtorEq, not_false_eq_true, true_and, not_not] at hno
    exact hno

/-- The entries of a key in a period are one view. -/
theorem Undisturbed.entry_unique (hperiod : r.Undisturbed key a z) (h : r.EntryIn key a z id)
    (h' : r.EntryIn key a z id') : id = id' := by
  obtain ⟨u, hau, huz, he⟩ := h
  obtain ⟨u', hau', huz', he'⟩ := h'
  rcases Nat.le_total u u' with hle | hle
  · exact Option.some.inj ((entryAt_of_undisturbed he hau hle huz' hperiod).symm.trans he')
  · exact Option.some.inj (he.symm.trans (entryAt_of_undisturbed he' hau' hle huz hperiod))

/-- A view that has been made is about to be stored, or a view has been stored. -/
def Underway (r : Run) (key : String) (t : ℕ) : Prop :=
  (∃ who q v, (r.state t).call? who = some (q, .storing v) ∧ q.key? = some key) ∨
    r.entryAt key t ≠ none

lemma Makes.underway_succ (h : r.Makes who q b m key content v) : r.Underway key (m + 1) := by
  obtain ⟨hsteps, hq, hmade⟩ := h
  have hstage := hsteps.move.stage_of_made hq hmade
  have hcall := hsteps.moves.going (by simp [hstage])
  rw [hstage] at hcall
  exact .inl ⟨who, q, v, hcall, hq⟩

lemma Underway.succ (h : r.Underway key t) (hno : ¬ r.Removes key t) : r.Underway key (t + 1) := by
  rcases h with ⟨who, q, v, hcall, hq⟩ | he
  · by_cases ha : r.action t = some (.advance who)
    · have hmoves := moves_of_call? hcall ha
      right
      rw [entryAt, hmoves.cache, (hmoves.move.storing_eq.2 key hq).1]
      simp
    · exact .inl ⟨who, q, v, call?_of_ne hcall ha, hq⟩
  · right
    intro hnone
    exact hno ⟨he, by rw [hnone]; exact he.symm⟩

lemma Underway.later (h : r.Underway key t) (ht : a < t) (htu : t ≤ u) (hu : u ≤ z)
    (hperiod : r.Undisturbed key a z) : r.Underway key u := by
  induction htu with
  | refl => exact h
  | @step u htu ih =>
    exact (ih (Nat.le_of_succ_le hu)).succ (hperiod u (Nat.lt_of_lt_of_le ht htu) hu)

/-- In a period at most one view of a key is made. -/
lemma Makes.le_of_undisturbed (h : r.Makes who q b m key content v)
    (h' : r.Makes who' q' b' m' key content' v') (hm : a < m) (hm' : m' < z)
    (hperiod : r.Undisturbed key a z) : m' ≤ m := by
  by_contra hlt
  obtain ⟨hsteps, hq, -⟩ := h'
  rcases h.underway_succ.later (Nat.lt_succ_of_lt hm) (Nat.lt_of_not_le hlt) (Nat.le_of_lt hm')
    hperiod with ⟨w, q₁, v₁, hcall, hq₁⟩ | he
  · -- the one who is about to store has the slot, and is not making a view any more
    have hsame := (r.coherent m').holder_unique hcall hsteps.1.call? rfl rfl hq₁ hq
    rw [hsame, hsteps.1.call?] at hcall
    simp at hcall
  · exact he ((r.coherent m').absent who' q' _ key hsteps.1.call? rfl hq)

/-- The views that are made for a key in a period are made in one turn. -/
theorem Undisturbed.made_unique (hperiod : r.Undisturbed key a z)
    (h : r.Makes who q b m key content v) (h' : r.Makes who' q' b' m' key content' v')
    (hm : a < m ∧ m < z) (hm' : a < m' ∧ m' < z) : m = m' :=
  Nat.le_antisymm (h'.le_of_undisturbed h hm'.1 hm.2 hperiod)
    (h.le_of_undisturbed h' hm.1 hm'.2 hperiod)

end Run

end CompiledViews
