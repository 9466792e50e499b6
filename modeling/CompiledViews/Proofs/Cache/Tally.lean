import CompiledViews.Proofs.Cache.SingleFlight
import Mathlib.Algebra.BigOperators.Group.Finset.Basic
import Mathlib.Algebra.BigOperators.Intervals

/-!
Counting calls. A call is known by the turn that it began in. What the calls under way weigh
together changes in a turn by the weight of the one call that moves, and so does the number of
calls that have some property. What one step of a call keeps in balance is in balance at any time.
-/

namespace CompiledViews

namespace Machine

variable {weight : Request → Stage → ℕ} {m m' : Machine} {who : Caller} {q q' : Request}
  {s s' : Stage} {o : Outcome}

/-- A caller has one call under way at most. -/
lemma call?_unique (h : m.call? who = some (q, s)) (h' : m.call? who = some (q', s')) :
    q = q' ∧ s = s' := Prod.mk.inj (Option.some.inj (h.symm.trans h'))

/-- What the call of a caller weighs, and nothing if there is none. -/
def weighed (weight : Request → Stage → ℕ) (m : Machine) (who : Caller) : ℕ :=
  (m.call? who).elim 0 fun call => weight call.1 call.2

/-- What the calls under way weigh together. -/
def load (weight : Request → Stage → ℕ) (m : Machine) : ℕ :=
  ∑ who ∈ Finset.range m.clients.length, m.weighed weight who

lemma weighed_of_call? (h : m.call? who = some (q, s)) : m.weighed weight who = weight q s := by
  simp [weighed, h]

lemma weighed_eq_zero (hstart : ∀ q, weight q .start = 0)
    (h : ∀ q s, m.call? who = some (q, s) → s = .start) : m.weighed weight who = 0 := by
  cases hcall : m.call? who with
  | none => simp [weighed, hcall]
  | some call =>
    obtain ⟨q, s⟩ := call
    rw [weighed_of_call? hcall, h q s hcall, hstart]

/-- A caller is one of the clients. -/
lemma lt_of_call? (h : m.call? who = some (q, s)) : who < m.clients.length := by
  obtain ⟨cl, rest, hcl, -⟩ := call?_eq_some_iff.mp h
  exact (List.getElem?_eq_some_iff.mp hcl).1

lemma length_stages (m : Machine) : m.stages.length = m.clients.length := by simp [stages]

lemma Moves.length_clients (h : m.Moves m' who q s o) : m'.clients.length = m.clients.length := by
  rw [← length_stages, ← length_stages, h.stages, List.length_set]

/-- The load changes by what the call that moves weighs before and after. -/
theorem Moves.load_add (h : m.Moves m' who q s o) (hstart : ∀ q, weight q .start = 0) :
    m'.load weight + weight q s = m.load weight + weight q o.stage := by
  have hmem : who ∈ Finset.range m.clients.length := Finset.mem_range.mpr (lt_of_call? h.call)
  have hafter : m'.weighed weight who = weight q o.stage := by
    by_cases ho : o.stage = .start
    · rw [ho, hstart]
      refine weighed_eq_zero hstart fun q' s' hcall => ?_
      rcases h.next q' s' hcall with ⟨-, hs'⟩ | hs'
      · rw [hs', ho]
      · exact hs'
    · exact weighed_of_call? (h.going ho)
  have hothers : ∑ w ∈ (Finset.range m.clients.length).erase who, m'.weighed weight w =
      ∑ w ∈ (Finset.range m.clients.length).erase who, m.weighed weight w := by
    refine Finset.sum_congr rfl fun w hw => ?_
    rw [weighed, h.others w (Finset.ne_of_mem_erase hw), weighed]
  have hbefore : m.weighed weight who = weight q s := weighed_of_call? h.call
  have hload : m.weighed weight who +
      ∑ w ∈ (Finset.range m.clients.length).erase who, m.weighed weight w = m.load weight :=
    Finset.add_sum_erase _ _ hmem
  have hload' : m'.weighed weight who +
      ∑ w ∈ (Finset.range m.clients.length).erase who, m'.weighed weight w = m'.load weight := by
    rw [load, h.length_clients]
    exact Finset.add_sum_erase _ _ hmem
  omega

/-- Calls that have only come weigh nothing yet. -/
theorem Rests.load_eq (h : m.Rests m') (hstart : ∀ q, weight q .start = 0) :
    m'.load weight = m.load weight := by
  have hsame : ∀ w, m'.weighed weight w = m.weighed weight w := by
    intro w
    rcases h.calls w with hcall | ⟨hnone, q, hnew⟩
    · rw [weighed, hcall, weighed]
    · rw [weighed_of_call? hnew, hstart, weighed, hnone, Option.elim_none]
  have hlength : m'.clients.length = m.clients.length ∨
      m'.clients.length = m.clients.length + 1 := by
    rw [← length_stages, ← length_stages]
    rcases h.stages with heq | heq <;> simp [heq]
  have hout : m.weighed weight m.clients.length = 0 := by simp [weighed, call?]
  rcases hlength with heq | heq
  · simp only [load, heq, hsame]
  · simp only [load, heq, hsame, Finset.sum_range_succ, hout, Nat.add_zero]

/-- Nothing weighs on a machine on which no call is under way. -/
lemma Calm.load_eq_zero (h : m.Calm) (hstart : ∀ q, weight q .start = 0) : m.load weight = 0 :=
  Finset.sum_eq_zero fun who _ => weighed_eq_zero hstart (h who)

end Machine

namespace Run

variable {r : Run} {who who' : Caller} {q q' : Request} {b b' t e : ℕ} {s s' : Stage} {a : Answer}

/-! A call that is under way began in one turn only, and it is over once it has returned. -/

lemma Reaches.eq_of_start (h : r.Reaches who q b t .start) : b = t := by
  generalize hs : Stage.start = s at h
  induction h with
  | begins => rfl
  | waits h hne ih =>
    obtain rfl := ih hs
    exact absurd h.begins_of.1 hne
  | goes h ha ho =>
    exact absurd hs.symm ((show r.Steps who q b _ _ from ⟨h, ha⟩).move.ne_start ho)

lemma Reaches.lt_of_ne_start (h : r.Reaches who q b t s) (hs : s ≠ .start) : b < t := by
  refine Nat.lt_of_le_of_ne h.le ?_
  rintro rfl
  exact hs (Machine.call?_unique h.call? h.begins_of.2).2

theorem Reaches.begun_unique (h : r.Reaches who q b t s) (h' : r.Reaches who q' b' t s') :
    b = b' := by
  induction h generalizing q' b' s' with
  | begins ha hcall =>
    obtain ⟨-, rfl⟩ := Machine.call?_unique hcall h'.call?
    exact h'.eq_of_start.symm
  | waits h hne ih =>
    cases h' with
    | begins ha hcall =>
      obtain ⟨-, rfl⟩ := Machine.call?_unique (h.waits hne).call? hcall
      exact (h.waits hne).eq_of_start
    | waits h' => exact ih h'
    | goes _ ha' => exact absurd ha' hne
  | goes h ha ho ih =>
    cases h' with
    | begins ha' hcall =>
      obtain ⟨-, hstart⟩ := Machine.call?_unique (h.goes ha ho).call? hcall
      exact absurd hstart ((show r.Steps who q b _ _ from ⟨h, ha⟩).move.ne_start ho)
    | waits _ hne => exact absurd ha hne
    | goes h' => exact ih h'

lemma Steps.stage_unique (h : r.Steps who q b t s) (h' : r.Steps who q b' t s') : s = s' :=
  (Machine.call?_unique h.1.call? h'.1.call?).2

lemma Reaches.le_of_returns (h : r.Reaches who q b t s) (hreturns : r.Returns who q b e a) :
    t ≤ e := by
  obtain ⟨s', c, hsteps, ho⟩ := hreturns
  induction h with
  | begins => exact hsteps.1.le
  | @waits t s h hne ih =>
    have hte := ih
    refine Nat.lt_of_le_of_ne hte ?_
    rintro rfl
    exact hne hsteps.2
  | @goes t s s'' c' h ha ho' ih =>
    refine Nat.lt_of_le_of_ne ih ?_
    rintro rfl
    obtain rfl := (show r.Steps who q b t s from ⟨h, ha⟩).stage_unique hsteps
    rw [ho] at ho'
    cases ho'

/-- Whoever begins in a turn is the one who takes it. -/
lemma Begins.unique (h : r.Begins who q b) (h' : r.Begins who' q' b) : who = who' ∧ q = q' := by
  obtain rfl : who = who' := by simpa using h.1.symm.trans h'.1
  exact ⟨rfl, (Machine.call?_unique h.2 h'.2).1⟩

variable (r)

open Classical in
/-- How many calls began before turn `t` and have a property. -/
noncomputable def tally (P : Caller → Request → ℕ → Prop) (t : ℕ) : ℕ :=
  ((Finset.range t).filter fun b => ∃ who q, r.Begins who q b ∧ P who q b).card

/-- A property of calls that changes in a turn for the call that moves alone. -/
def Local (P : ℕ → Caller → Request → ℕ → Prop) : Prop :=
  ∀ t who q b, (∀ s, ¬ r.Steps who q b t s) → (P (t + 1) who q b ↔ P t who q b)

variable {r} {P : ℕ → Caller → Request → ℕ → Prop}

lemma tally_congr {P Q : Caller → Request → ℕ → Prop}
    (h : ∀ who q b, b < t → r.Begins who q b → (P who q b ↔ Q who q b)) :
    r.tally P t = r.tally Q t := by
  classical
  refine congrArg Finset.card (Finset.filter_congr fun b hb => ?_)
  refine exists_congr fun who => exists_congr fun q => and_congr_right fun hbegins => ?_
  exact h who q b (Finset.mem_range.mp hb) hbegins

/-- The one call that began in a turn has a property, if any has. -/
lemma Begins.exists_iff (h : r.Begins who q b) (Q : Caller → Request → ℕ → Prop) :
    (∃ who' q', r.Begins who' q' b ∧ Q who' q' b) ↔ Q who q b := by
  constructor
  · rintro ⟨who', q', h', hQ⟩
    obtain ⟨rfl, rfl⟩ := h.unique h'
    exact hQ
  · exact fun hQ => ⟨who, q, h, hQ⟩

/-- In the turn of a call no other begins, since it takes the turn. -/
lemma Steps.ne_of_begins (h : r.Steps who q b t s) (h' : r.Begins who' q' b') (hne : b' ≠ b) :
    b' ≠ t := by
  rintro rfl
  obtain rfl : who = who' := by simpa using h.2.symm.trans h'.1
  exact hne ((Reaches.begins h'.1 h'.2).begun_unique h.1)

/-- In the turn of a call nothing changes for any other. -/
lemma Steps.iff_of_ne (h : r.Steps who q b t s) (hlocal : r.Local P) (hne : b' ≠ b) :
    P (t + 1) who' q' b' ↔ P t who' q' b' := by
  refine hlocal t who' q' b' fun s' hsteps => hne ?_
  obtain rfl : who = who' := by simpa using h.2.symm.trans hsteps.2
  exact hsteps.1.begun_unique h.1

lemma card_eq_erase_add (A : Finset ℕ) (b : ℕ) :
    A.card = (A.erase b).card + if b ∈ A then 1 else 0 := by
  split
  case isTrue hb => exact (Finset.card_erase_add_one hb).symm
  case isFalse hb => rw [Finset.erase_eq_of_notMem hb, Nat.add_zero]

open Classical in
/-- The number of calls changes as the property of the one call that moves. -/
theorem Steps.tally_add (h : r.Steps who q b t s) (hlocal : r.Local P) :
    r.tally (P (t + 1)) (t + 1) + (if b < t ∧ P t who q b then 1 else 0) =
      r.tally (P t) t + if P (t + 1) who q b then 1 else 0 := by
  have hothers : ((Finset.range (t + 1)).filter
        fun b' => ∃ who' q', r.Begins who' q' b' ∧ P (t + 1) who' q' b').erase b =
      ((Finset.range t).filter
        fun b' => ∃ who' q', r.Begins who' q' b' ∧ P t who' q' b').erase b := by
    ext b'
    simp only [Finset.mem_erase, Finset.mem_filter, Finset.mem_range]
    refine and_congr_right fun hne => ?_
    constructor
    · rintro ⟨hle, who', q', hb, hP⟩
      have hlt := Nat.lt_of_le_of_ne (Nat.le_of_lt_succ hle) (h.ne_of_begins hb hne)
      exact ⟨hlt, who', q', hb, (h.iff_of_ne hlocal hne).mp hP⟩
    · rintro ⟨hlt, who', q', hb, hP⟩
      exact ⟨Nat.lt_succ_of_lt hlt, who', q', hb, (h.iff_of_ne hlocal hne).mpr hP⟩
  rw [tally, tally, card_eq_erase_add _ b, hothers, card_eq_erase_add
    ((Finset.range t).filter fun b' => ∃ who' q', r.Begins who' q' b' ∧ P t who' q' b') b]
  simp only [Finset.mem_filter, Finset.mem_range, h.1.begins_of.exists_iff,
    Nat.lt_succ_of_le h.1.le, true_and]
  omega

/-- In a turn in which no call moves, none begins. -/
theorem tally_succ_of_rests (hno : ∀ who, r.action t ≠ some (.advance who)) (hlocal : r.Local P) :
    r.tally (P (t + 1)) (t + 1) = r.tally (P t) t := by
  classical
  rw [tally, tally, Finset.range_add_one, Finset.filter_insert, if_neg]
  · congr 1
    refine Finset.filter_congr fun b hb => ?_
    refine exists_congr fun who => exists_congr fun q => and_congr_right fun _ => ?_
    exact hlocal t who q b fun s hsteps => hno who hsteps.2
  · rintro ⟨who, q, hb, -⟩
    exact hno who hb.1

open Classical in
/-- What the cache says and what the call weighs change in a step together as the property of the
call that moves. -/
def Balances (r : Run) (value : Cache → ℤ) (weight : Request → Stage → ℕ)
    (P : ℕ → Caller → Request → ℕ → Prop) : Prop :=
  ∀ who q b t s, r.Steps who q b t s →
    value (r.state (t + 1)).cache + weight q (r.outcomeAt who q s t).stage +
        (if b < t ∧ P t who q b then 1 else 0) =
      value (r.state t).cache + weight q s + if P (t + 1) who q b then 1 else 0

/-- What a cache says and what the calls under way weigh make up the number of calls with a
property, if each step of a call keeps this balance. -/
theorem balance {value : Cache → ℤ} {weight : Request → Stage → ℕ} (hlocal : r.Local P)
    (hstart : ∀ q, weight q .start = 0) (hzero : value (r.state 0).cache = 0)
    (hstep : r.Balances value weight P) (t : ℕ) :
    value (r.state t).cache + (r.state t).load weight = r.tally (P t) t := by
  induction t with
  | zero =>
    have hload : (r.state 0).load weight = 0 :=
      Finset.sum_eq_zero fun who _ => by simp [Machine.weighed, r.call?_zero]
    simp [hload, hzero, tally]
  | succ t ih =>
    rcases r.moves_or_rests t with ⟨who, q, s, o, ha, hmoves⟩ | ⟨hno, hrests⟩
    · obtain ⟨b, hreach⟩ : ∃ b, r.Reaches who q b t s := by
        by_cases hs : s = .start
        · subst hs
          exact ⟨t, .begins ha hmoves.call⟩
        · exact exists_reaches hs hmoves.call
      have hsteps : r.Steps who q b t s := ⟨hreach, ha⟩
      have hload := hsteps.moves.load_add hstart
      have htally := hsteps.tally_add hlocal
      have hvalue := hstep who q b t s hsteps
      split_ifs at htally hvalue <;> omega
    · rw [hrests.load_eq hstart, tally_succ_of_rests hno hlocal, hrests.cache]
      exact ih

end Run

end CompiledViews
