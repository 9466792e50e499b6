import CompiledViews.Proofs.Cache.Coherence

/-!
Calls in a run: when a call begins, the stages that it comes to, and when it returns. A turn stands
between the machine before it and the machine after it, so what a call finds in turn `t` is what
there is at time `t`.
-/

namespace CompiledViews.Run

variable (r : Run)

/-- The turns from one on grow by the last. -/
lemma turns_succ {a t : ℕ} (h : a ≤ t) :
    List.range' a (t + 1 - a) = List.range' a (t - a) ++ [t] := by
  rw [Nat.succ_sub h, List.range'_concat, Nat.one_mul, Nat.add_sub_cancel' h]

/-- The entry of a key at a time. -/
def entryAt (key : String) (t : ℕ) : Option Nat := Cache.entry? (r.state t).cache key

/-- What the next step of a call leads to at a time. -/
def outcomeAt (who : Caller) (q : Request) (s : Stage) (t : ℕ) : Outcome :=
  (r.state t).cache.step (r.state t).files who q s

/-- The call for `q` that `who` begins in turn `b` has come to a stage at time `t`. -/
inductive Reaches (who : Caller) (q : Request) (b : ℕ) : ℕ → Stage → Prop
  | begins : r.action b = some (.advance who) → (r.state b).call? who = some (q, .start) →
      Reaches who q b b .start
  | waits {t s} : Reaches who q b t s → r.action t ≠ some (.advance who) → Reaches who q b (t + 1) s
  | goes {t s s' c} : Reaches who q b t s → r.action t = some (.advance who) →
      r.outcomeAt who q s t = .going s' c → Reaches who q b (t + 1) s'

/-- In turn `t` a call takes the step from a stage. -/
def Steps (who : Caller) (q : Request) (b t : ℕ) (s : Stage) : Prop :=
  r.Reaches who q b t s ∧ r.action t = some (.advance who)

/-- In turn `t` a caller takes the first step of a call. -/
def Begins (who : Caller) (q : Request) (t : ℕ) : Prop :=
  r.action t = some (.advance who) ∧ (r.state t).call? who = some (q, .start)

/-- The call for `q` that `who` begins in turn `b` returns an answer in turn `e`. -/
def Returns (who : Caller) (q : Request) (b e : ℕ) (a : Answer) : Prop :=
  ∃ s c, r.Steps who q b e s ∧ r.outcomeAt who q s e = .finished a c

variable {r} {who : Caller} {q : Request} {b t : ℕ} {s : Stage}

lemma outcome_of_moves {w : Caller} {m' : Machine} {o : Outcome}
    (h : (r.state t).Moves m' w q s o) : r.outcomeAt w q s t = o := h.step

lemma entryAt_zero (key : String) : r.entryAt key 0 = none := by
  obtain ⟨files, registry, workshop, h⟩ := r.fresh
  rw [entryAt, h]
  rfl

/-- Whoever is at a call and takes a turn moves this call. -/
lemma moves_of_call? (hcall : (r.state t).call? who = some (q, s))
    (ha : r.action t = some (.advance who)) :
    (r.state t).Moves (r.state (t + 1)) who q s (r.outcomeAt who q s t) := by
  rcases r.moves_or_rests t with ⟨w, q', s', o, haction, h⟩ | ⟨hne, -⟩
  · obtain rfl : who = w := by simpa [ha] using haction
    obtain ⟨rfl, rfl⟩ : q = q' ∧ s = s' := by simpa [hcall] using h.call
    rwa [outcome_of_moves h]
  · exact absurd ha (hne who)

/-- A call stays where it is while others take their turns. -/
lemma call?_of_ne (hcall : (r.state t).call? who = some (q, s))
    (ha : r.action t ≠ some (.advance who)) : (r.state (t + 1)).call? who = some (q, s) := by
  rcases r.moves_or_rests t with ⟨w, q', s', o, haction, h⟩ | ⟨-, h⟩
  · have hne : who ≠ w := by
      rintro rfl
      exact ha haction
    rwa [h.others who hne]
  · exact h.call?_eq_some hcall

namespace Reaches

theorem le (h : r.Reaches who q b t s) : b ≤ t := by
  induction h with
  | begins => exact Nat.le_refl b
  | waits _ _ ih | goes _ _ _ ih => exact Nat.le_succ_of_le ih

theorem call? (h : r.Reaches who q b t s) : (r.state t).call? who = some (q, s) := by
  induction h with
  | begins _ hcall => exact hcall
  | waits _ hne ih => exact call?_of_ne ih hne
  | goes _ ha ho ih =>
    have hmoves := moves_of_call? ih ha
    rw [ho] at hmoves
    exact hmoves.going (hmoves.move.ne_start rfl)

theorem begins_of (h : r.Reaches who q b t s) : r.Begins who q b := by
  induction h with
  | begins ha hcall => exact ⟨ha, hcall⟩
  | waits _ _ ih | goes _ _ _ ih => exact ih

end Reaches

/-- A call that is past its start has waited at its stage, or has just come to it. -/
theorem Reaches.of_succ (h : r.Reaches who q b (t + 1) s) (hs : s ≠ .start) :
    r.Reaches who q b t s ∨ ∃ s', r.Steps who q b t s' ∧ (r.outcomeAt who q s' t).stage = s := by
  cases h with
  | begins => exact absurd rfl hs
  | waits h _ => exact .inl h
  | goes h ha ho => exact .inr ⟨_, ⟨h, ha⟩, by rw [ho]; rfl⟩

namespace Steps

theorem moves (h : r.Steps who q b t s) :
    (r.state t).Moves (r.state (t + 1)) who q s (r.outcomeAt who q s t) :=
  moves_of_call? h.1.call? h.2

theorem move (h : r.Steps who q b t s) :
    (r.state t).cache.Move (r.state t).files who q s (r.outcomeAt who q s t) := h.moves.move

end Steps

/-- A call that takes a step goes on or returns. -/
theorem Steps.goes_or_returns (h : r.Steps who q b t s) :
    (∃ s', s' ≠ .start ∧ r.Reaches who q b (t + 1) s' ∧ (r.outcomeAt who q s t).stage = s') ∨
      ∃ a, r.Returns who q b t a := by
  cases ho : r.outcomeAt who q s t with
  | blocked => exact absurd ho h.move.ne_blocked
  | going s' c => exact .inl ⟨s', h.move.ne_start ho, h.1.goes h.2 ho, rfl⟩
  | finished a c => exact .inr ⟨a, s, c, h, ho⟩

/-- A call that has begun is under way or has returned. -/
theorem Begins.under_way_or_returned (h : r.Begins who q b) (hbt : b < t) :
    (∃ s, s ≠ .start ∧ r.Reaches who q b t s) ∨ ∃ e a, e < t ∧ r.Returns who q b e a := by
  induction hbt with
  | refl =>
    have hsteps : r.Steps who q b b .start := ⟨.begins h.1 h.2, h.1⟩
    rcases hsteps.goes_or_returns with ⟨s, hs, hreach, -⟩ | ⟨a, hreturns⟩
    · exact .inl ⟨s, hs, hreach⟩
    · exact .inr ⟨b, a, Nat.lt_succ_self b, hreturns⟩
  | @step t _ ih =>
    rcases ih with ⟨s, hs, hreach⟩ | ⟨e, a, het, hreturns⟩
    · by_cases ha : r.action t = some (.advance who)
      · rcases (show r.Steps who q b t s from ⟨hreach, ha⟩).goes_or_returns with
          ⟨s', hs', hreach', -⟩ | ⟨a, hreturns⟩
        · exact .inl ⟨s', hs', hreach'⟩
        · exact .inr ⟨t, a, Nat.lt_succ_self t, hreturns⟩
      · exact .inl ⟨s, hs, hreach.waits ha⟩
    · exact .inr ⟨e, a, Nat.lt_succ_of_lt het, hreturns⟩

/-- A call that has begun and is not under way any more has returned. -/
theorem Begins.returned (h : r.Begins who q b) (hbt : b < t)
    (hdone : ∀ s, (r.state t).call? who = some (q, s) → s = .start) :
    ∃ e a, e < t ∧ r.Returns who q b e a := by
  rcases h.under_way_or_returned hbt with ⟨s, hs, hreach⟩ | hreturned
  · exact absurd (hdone s hreach.call?) hs
  · exact hreturned

/-- A call that is past its start began in some turn before. -/
theorem exists_reaches {s : Stage} (hs : s ≠ .start) {t : ℕ}
    (hcall : (r.state t).call? who = some (q, s)) : ∃ b, r.Reaches who q b t s := by
  induction t generalizing q s with
  | zero =>
    rw [r.call?_zero] at hcall
    cases hcall
  | succ t ih =>
    by_cases ha : r.action t = some (.advance who)
    · rcases r.moves_or_rests t with ⟨w, q', s', o, haction, h⟩ | ⟨hne, -⟩
      · obtain rfl : who = w := by simpa [ha] using haction
        obtain ⟨rfl, rfl⟩ := h.call_of_stage hcall hs
        obtain ⟨b, hb⟩ : ∃ b, r.Reaches who q b t s' := by
          by_cases hstart : s' = .start
          · subst hstart
            exact ⟨t, .begins ha h.call⟩
          · exact ih hstart h.call
        cases ho : o with
        | blocked | finished a c => simp [ho] at hs
        | going s'' c =>
          subst ho
          exact ⟨b, hb.goes ha (outcome_of_moves h)⟩
      · exact absurd ha (hne who)
    · have hback : (r.state t).call? who = some (q, s) := by
        rcases r.moves_or_rests t with ⟨w, q', s', o, haction, h⟩ | ⟨-, h⟩
        · have hne : who ≠ w := by
            rintro rfl
            exact ha haction
          rwa [← h.others who hne]
        · exact h.call?_of_ne_start hcall hs
      obtain ⟨b, hb⟩ := ih hs hback
      exact ⟨b, hb.waits ha⟩

/-- A call that is past its start has come to its stage with a step. -/
theorem Reaches.exists_steps (h : r.Reaches who q b t s) (hs : s ≠ .start) :
    ∃ u s', u < t ∧ r.Steps who q b u s' ∧ (r.outcomeAt who q s' u).stage = s := by
  induction h with
  | begins => exact absurd rfl hs
  | waits _ _ ih =>
    obtain ⟨u, s', hut, hsteps, hstage⟩ := ih hs
    exact ⟨u, s', Nat.lt_succ_of_lt hut, hsteps, hstage⟩
  | @goes t s s' c h ha ho _ => exact ⟨t, s, Nat.lt_succ_self t, ⟨h, ha⟩, by rw [ho]; rfl⟩

/-- A call that leaves with a view has found it among the entries, or has put it there. -/
theorem Reaches.entry_of_leaving {id : Nat} {key : String}
    (h : r.Reaches who q b t (.leaving (.view id))) (hq : q.key? = some key) :
    ∃ u, b ≤ u ∧ u ≤ t ∧ r.entryAt key u = some id := by
  obtain ⟨u, s, hut, hsteps, hstage⟩ := h.exists_steps (by simp)
  have hbu := hsteps.1.le
  rcases hsteps.move.stage_eq_leaving hq hstage with he | he
  · exact ⟨u, hbu, Nat.le_of_lt hut, he⟩
  · exact ⟨u + 1, Nat.le_succ_of_le hbu, hut, by rwa [entryAt, hsteps.moves.cache]⟩

theorem Returns.le {e : ℕ} {a : Answer} (h : r.Returns who q b e a) : b ≤ e := by
  obtain ⟨s, c, hsteps, -⟩ := h
  exact hsteps.1.le

/-- A view that a lookup or an invalidation returns was the entry of the key during the call. -/
theorem Returns.entry {id e : Nat} {key : String} (h : r.Returns who q b e (.view id))
    (hq : q.key? = some key) : ∃ u, b ≤ u ∧ u ≤ e ∧ r.entryAt key u = some id := by
  obtain ⟨s, c, hsteps, ho⟩ := h
  rcases hsteps.move.finished_view hq ho with he | rfl
  · exact ⟨e, hsteps.1.le, Nat.le_refl e, he⟩
  · exact hsteps.1.entry_of_leaving hq

end CompiledViews.Run
