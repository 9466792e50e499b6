import CompiledViews.Proofs.Cache.Batches

/-!
Progress under fairness. Whoever can go on does so at some time, and slots are handed out fairly, so
that the client of the loop does not wait for one for ever. Then every slot becomes free again, and
the client begins and ends whatever is on its agenda.
-/

namespace CompiledViews

/-- How many steps a call has before it, at the most. -/
def Stage.rank : Stage → ℕ
  | .start => 0
  | .rendering _ => 1
  | .leaving _ => 2
  | .storing _ => 3
  | .making _ => 4
  | .opening => 5
  | .holding _ => 6
  | .waiting _ => 7

lemma Stage.rank_le (s : Stage) : s.rank ≤ 7 := by
  cases s <;> simp [rank]

lemma Stage.rank_pos {s : Stage} (h : s ≠ .start) : 0 < s.rank := by
  cases s <;> simp_all [rank]

namespace Cache

variable {c : Cache} {t : FileTree} {who : Caller} {q : Request} {s : Stage} {o : Outcome}
  {key : String}

/-- A call that is past its start comes nearer to its end with every step. -/
theorem Move.rank_lt (h : c.Move t who q s o) (hs : s ≠ .start) : o.stage.rank < s.rank := by
  cases h with
  | @leaves q _ a =>
    rcases Outcome.stage_settle q a (c.freeSlot _) with h | ⟨id, h⟩ <;> rw [h] <;>
      simp [Stage.rank]
  | hit | unknown | ask | evict | forget | ignore | gets | clears => exact absurd rfl hs
  | _ => simp [Stage.rank]

lemma approach_ne_blocked (evicted : Bool) : c.approach key evicted ≠ .blocked := by
  unfold approach
  split <;> simp

lemma workStep_ne_blocked {again : Bool → Cache → Stage × Cache}
    (hs : s.holds ∨ (∃ e, s = .waiting e) ∧ c.holder? key = none) :
    c.workStep t who key again s ≠ .blocked := by
  cases s with
  | start | rendering id => simp [Stage.holds] at hs
  | waiting e => simp [workStep, show c.holder? key = none by simpa [Stage.holds] using hs]
  | making opened =>
    cases opened with
    | error e => simp [workStep]
    | ok content =>
      simp only [workStep]
      split <;> simp
  | _ => simp [workStep]

lemma lookupStep_ne_blocked
    (hs : s = .start ∨ s.holds ∨ (∃ e, s = .waiting e) ∧ c.holder? key = none) :
    c.lookupStep t who key s ≠ .blocked := by
  rcases hs with rfl | hs
  · simp only [lookupStep]
    split
    · simp
    · exact approach_ne_blocked false
  · rw [lookupStep_eq (by rintro rfl; simp at hs)]
    exact workStep_ne_blocked hs

lemma invalidateStep_ne_blocked
    (hs : s = .start ∨ s.holds ∨ (∃ e, s = .waiting e) ∧ c.holder? key = none) :
    c.invalidateStep t who key s ≠ .blocked := by
  rcases hs with rfl | hs
  · simp only [invalidateStep]
    split
    · exact approach_ne_blocked true
    · split
      · exact approach_ne_blocked false
      · simp
  · rw [invalidateStep_eq (by rintro rfl; simp at hs)]
    exact workStep_ne_blocked hs

/-- A call has to wait for nothing but the slot of its key. -/
theorem step_ne_blocked (hq : q.key? = some key)
    (hs : s = .start ∨ s.holds ∨ (∃ e, s = .waiting e) ∧ c.holder? key = none) :
    c.step t who q s ≠ .blocked := by
  cases q with
  | lookup path =>
    cases hq
    exact lookupStep_ne_blocked hs
  | invalidate path =>
    cases hq
    exact invalidateStep_ne_blocked hs
  | render path model =>
    cases hq
    have hlookup : c.lookupStep t who (Path.normalizeLogical path) s ≠ .blocked :=
      lookupStep_ne_blocked hs
    cases s with
    | rendering id => simp [Stage.holds] at hs
    | _ =>
      simp only [step]
      split
      · simp
      · exact hlookup
  | get path | clear => cases hq

end Cache

namespace Machine

/-- Nothing is left to do: no request of a client, no notice and no batch. -/
def isDone (m : Machine) : Bool :=
  m.clients.all (·.todo.isEmpty) && m.queue.isEmpty && m.loop == .idle

/-- When nothing is left to do, only new requests, edits and notices can come. -/
lemma of_act_of_isDone {m : Machine} {x : Action} (h : m.isDone) (hx : (m.act x).isSome) :
    x ≠ .receive ∧ x ≠ .drain ∧ ∀ who, x ≠ .advance who := by
  simp only [isDone, Bool.and_eq_true, List.all_eq_true, List.isEmpty_iff, beq_iff_eq] at h
  obtain ⟨⟨hclients, hqueue⟩, hloop⟩ := h
  refine ⟨?_, ?_, ?_⟩
  · rintro rfl
    simp [act, hqueue] at hx
  · rintro rfl
    simp [act, hloop] at hx
  · rintro who rfl
    obtain ⟨m', hm'⟩ := Option.isSome_iff_exists.mp hx
    obtain ⟨cl, cl', c', hcl, hadv, -⟩ := act_advance_eq_some hm'
    obtain ⟨q, rest, htodo, -⟩ := Client.advance_eq_some hadv
    have hdone := hclients cl (List.mem_of_getElem? hcl)
    rw [htodo] at hdone
    cases hdone

end Machine

namespace Run

variable (r : Run)

/-- In turn `t` an action can be taken. -/
def Enabled (x : Action) (t : ℕ) : Prop := ((r.state t).act x).isSome

/-- An action that can be taken from some time on is taken at some time. -/
def WeaklyFair (x : Action) : Prop :=
  ∀ t, (∀ u, t ≤ u → r.Enabled x u) → ∃ u, t ≤ u ∧ r.action u = some x

/-- An action that can be taken again and again is taken at some time. -/
def StronglyFair (x : Action) : Prop :=
  ∀ t, (∀ u, t ≤ u → ∃ v, u ≤ v ∧ r.Enabled x v) → ∃ u, t ≤ u ∧ r.action u = some x

/-- Nobody who can go on stops for ever, and the client of the loop gets a slot that becomes free
again and again. -/
structure Fair : Prop where
  calls : ∀ (who : Caller), r.WeaklyFair (.advance who)
  slots : r.StronglyFair (.advance 0)
  receives : r.WeaklyFair .receive
  drains : r.WeaklyFair .drain

variable {r}

/-- An action that cannot be taken any more from some time on is not waiting for its turn. -/
lemma stronglyFair_of_not_enabled {n : ℕ} {x : Action} (h : ∀ t, n ≤ t → ¬ r.Enabled x t) :
    r.StronglyFair x := by
  intro t hon
  obtain ⟨u, hu, hon⟩ := hon (max n t) (Nat.le_max_right n t)
  exact absurd hon (h u (Nat.le_trans (Nat.le_max_left n t) hu))

lemma StronglyFair.weaklyFair {x : Action} (h : r.StronglyFair x) : r.WeaklyFair x :=
  fun t hon => h t fun u htu => ⟨u, Nat.le_refl u, hon u htu⟩

/-- If nothing is left to do from some time on, no step is put off for ever. -/
theorem stronglyFair_of_done {n : ℕ} (h : ∀ t, n ≤ t → (r.state t).isDone) (who : Caller) :
    r.StronglyFair (.advance who) := by
  refine stronglyFair_of_not_enabled (n := n) fun t ht hon => ?_
  exact (Machine.of_act_of_isDone (h t ht) hon).2.2 who rfl

/-- A run is fair if nothing is left to do from some time on. -/
theorem fair_of_done {n : ℕ} (h : ∀ t, n ≤ t → (r.state t).isDone) : r.Fair where
  calls who := (stronglyFair_of_done h who).weaklyFair
  slots := stronglyFair_of_done h 0
  receives := (stronglyFair_of_not_enabled (n := n) fun t ht hon =>
    (Machine.of_act_of_isDone (h t ht) hon).1 rfl).weaklyFair
  drains := (stronglyFair_of_not_enabled (n := n) fun t ht hon =>
    (Machine.of_act_of_isDone (h t ht) hon).2.1 rfl).weaklyFair

variable {x : Action} {t : ℕ} {P : ℕ → Prop}

lemma holds_or_taken (hP : P t) (hstays : ∀ u, P u → r.action u ≠ some x → P (u + 1)) :
    (∀ u, t ≤ u → P u) ∨ ∃ u, t ≤ u ∧ P u ∧ r.action u = some x := by
  by_cases htaken : ∃ u, t ≤ u ∧ P u ∧ r.action u = some x
  · exact .inr htaken
  · left
    intro u htu
    induction htu with
    | refl => exact hP
    | @step u htu ih => exact hstays u ih fun ha => htaken ⟨u, htu, ih, ha⟩

/-- What can be done as long as it has not been done is done. -/
theorem WeaklyFair.taken (hfair : r.WeaklyFair x) (hP : P t) (hon : ∀ u, P u → r.Enabled x u)
    (hstays : ∀ u, P u → r.action u ≠ some x → P (u + 1)) :
    ∃ u, t ≤ u ∧ P u ∧ r.action u = some x := by
  rcases holds_or_taken hP hstays with hall | htaken
  · obtain ⟨u, htu, ha⟩ := hfair t fun u htu => hon u (hall u htu)
    exact ⟨u, htu, hall u htu, ha⟩
  · exact htaken

/-- What can be done again and again as long as it has not been done is done. -/
theorem StronglyFair.taken (hfair : r.StronglyFair x) (hP : P t)
    (hon : ∀ u, P u → ∃ v, u ≤ v ∧ r.Enabled x v)
    (hstays : ∀ u, P u → r.action u ≠ some x → P (u + 1)) :
    ∃ u, t ≤ u ∧ P u ∧ r.action u = some x := by
  rcases holds_or_taken hP hstays with hall | htaken
  · obtain ⟨u, htu, ha⟩ := hfair t fun u htu => hon u (hall u htu)
    exact ⟨u, htu, hall u htu, ha⟩
  · exact htaken

variable {who : Caller} {q : Request} {s : Stage} {key : String}

lemma enabled_of_call? (hcall : (r.state t).call? who = some (q, s))
    (hb : r.outcomeAt who q s t ≠ .blocked) : r.Enabled (.advance who) t := by
  obtain ⟨cl, rest, hcl, htodo, rfl⟩ := Machine.call?_eq_some_iff.mp hcall
  unfold outcomeAt at hb
  cases ho : (r.state t).cache.step (r.state t).files who q cl.stage with
  | blocked => exact absurd ho hb
  | _ => simp [Enabled, Machine.act, hcl, Client.advance, htodo, ho]

/-- Whoever holds a slot gives it back at some time. -/
theorem Fair.slot_freed (hfair : r.Fair) (hholder : (r.state t).cache.holder? key = some who) :
    ∃ u, t ≤ u ∧ (r.state u).cache.holder? key = none := by
  obtain ⟨q, s, hcall, hs, hq⟩ := ((r.coherent t).held key who).mp hholder
  clear hholder
  induction hrank : s.rank using Nat.strongRecOn generalizing t s with
  | _ n ih =>
    obtain ⟨u, htu, hcall, ha⟩ := (hfair.calls who).taken
      (P := fun u => (r.state u).call? who = some (q, s)) hcall
      (fun u hu => enabled_of_call? hu (Cache.step_ne_blocked hq (.inr (.inl hs))))
      (fun u hu hne => call?_of_ne hu hne)
    have hmoves := moves_of_call? hcall ha
    have hstart : s ≠ .start := by
      rintro rfl
      simp at hs
    by_cases ho : (r.outcomeAt who q s u).stage.holds
    · have hlt := hmoves.move.rank_lt hstart
      obtain ⟨v, huv, hfree⟩ := ih _ (hrank ▸ hlt) _ (hmoves.going (by
        intro h
        simp [h] at ho)) ho rfl
      exact ⟨v, by omega, hfree⟩
    · refine ⟨u + 1, by omega, ?_⟩
      have hown := fun hs key hq => ((r.coherent u).held key who).mpr ⟨q, s, hcall, hs, hq⟩
      rw [hmoves.cache, hmoves.move.holder?_eq hown]
      simp [hq, ho, hs]

/-- Only a call that renders comes to the rendering of a view. -/
lemma Reaches.exists_render {b id : ℕ} (h : r.Reaches who q b t (.rendering id)) :
    ∃ path model, q = .render path model := by
  obtain ⟨u, s, -, hsteps, hstage⟩ := h.exists_steps (by simp)
  exact (hsteps.move.stage_eq_rendering hstage).1

/-- A call that does not wait for the slot of its key can go on. -/
lemma enabled_of_key? (hcall : (r.state t).call? who = some (q, s)) (hq : q.key? = some key)
    (hfree : ∀ e, s = .waiting e → (r.state t).cache.holder? key = none) :
    r.Enabled (.advance who) t := by
  refine enabled_of_call? hcall ?_
  cases s with
  | rendering id =>
    obtain ⟨b, hreach⟩ := exists_reaches (by simp) hcall
    obtain ⟨path, model, rfl⟩ := hreach.exists_render
    simp [outcomeAt, Cache.step]
  | start => exact Cache.step_ne_blocked hq (.inl rfl)
  | waiting e => exact Cache.step_ne_blocked hq (.inr (.inr ⟨⟨e, rfl⟩, hfree e rfl⟩))
  | _ => exact Cache.step_ne_blocked hq (.inr (.inl rfl))

/-- Whoever gets a slot that becomes free again and again takes the next step at some time. -/
theorem Fair.steps (hfair : r.Fair) (hslots : r.StronglyFair (.advance who))
    (hq : q.key? = some key) (hP : P t) (hcall : ∀ u, P u → (r.state u).call? who = some (q, s))
    (hstays : ∀ u, P u → r.action u ≠ some (.advance who) → P (u + 1)) :
    ∃ u, t ≤ u ∧ P u ∧ r.action u = some (.advance who) := by
  refine hslots.taken hP (fun u hu => ?_) hstays
  cases hholder : (r.state u).cache.holder? key with
  | none => exact ⟨u, Nat.le_refl u, enabled_of_key? (hcall u hu) hq fun _ _ => hholder⟩
  | some w =>
    -- either the call has gone on by the time the slot becomes free, or it can take it then
    rcases holds_or_taken hu hstays with hall | ⟨v, huv, hv, ha⟩
    · obtain ⟨v, huv, hfree⟩ := hfair.slot_freed hholder
      exact ⟨v, huv, enabled_of_key? (hcall v (hall v huv)) hq fun _ _ => hfree⟩
    · exact ⟨v, huv, by simp [Enabled, r.act_eq v ha]⟩

/-- What the client of the loop has before it, at the most. -/
def workload (r : Run) (t : ℕ) : ℕ :=
  8 * (r.state t).agenda.length + (((r.state t).call? 0).map (·.2.rank)).getD 0

/-- With a step the client of the loop begins a request of its agenda, or comes nearer to the end of
the one that it is at. -/
lemma workload_succ_lt (hcall : (r.state t).call? 0 = some (q, s))
    (ha : r.action t = some (.advance 0)) : r.workload (t + 1) < r.workload t := by
  have hstep := agenda_eq (ne_drain_of_call? hcall)
  have hmoves := moves_of_call? hcall ha
  by_cases hs : s = .start
  · subst hs
    rw [begunIn_eq_some_iff.mpr ⟨ha, hcall⟩] at hstep
    have hrank : (((r.state (t + 1)).call? 0).map (·.2.rank)).getD 0 ≤ 7 := by
      cases (r.state (t + 1)).call? 0 with
      | none => simp
      | some x => exact x.2.rank_le
    simp only [workload, hstep, hcall, Option.toList_some, List.singleton_append,
      List.length_cons]
    omega
  · have hnone : r.begunIn 0 t = none := by
      cases hb : r.begunIn 0 t with
      | none => rfl
      | some q' =>
        have hcall' := (begunIn_eq_some_iff.mp hb).2
        rw [hcall] at hcall'
        simp [hs] at hcall'
    rw [hnone] at hstep
    have hrank : (((r.state (t + 1)).call? 0).map (·.2.rank)).getD 0 < s.rank := by
      cases hcall' : (r.state (t + 1)).call? 0 with
      | none => exact Stage.rank_pos hs
      | some x =>
        rcases hmoves.next x.1 x.2 hcall' with ⟨-, h⟩ | h
        · simpa [h] using hmoves.move.rank_lt hs
        · simpa [h, Stage.rank] using Stage.rank_pos hs
    simp only [workload, hstep, hcall, Option.toList_none, List.nil_append, Option.map_some,
      Option.getD_some]
    omega

/-- The client of the loop takes a step at some time, up to which its agenda stays the same, and it
has less before it then. -/
theorem Fair.workload_lt (hfair : r.Fair) (hcall : (r.state t).call? 0 = some (q, s)) :
    ∃ u, t ≤ u ∧ (r.state t).agenda = (r.begunIn 0 u).toList ++ (r.state (u + 1)).agenda ∧
      r.workload (u + 1) < r.workload t := by
  have hstays : ∀ u, (r.state u).call? 0 = some (q, s) ∧
      (r.state u).agenda = (r.state t).agenda → r.action u ≠ some (.advance 0) →
      (r.state (u + 1)).call? 0 = some (q, s) ∧
        (r.state (u + 1)).agenda = (r.state t).agenda := by
    rintro u ⟨hcallu, hagenda⟩ hne
    have hsame := agenda_eq (ne_drain_of_call? hcallu)
    rw [begunIn_eq_none hne] at hsame
    exact ⟨call?_of_ne hcallu hne, hsame.symm.trans hagenda⟩
  obtain ⟨path, rfl⟩ := eq_invalidate_of_call? hcall
  obtain ⟨u, htu, ⟨hcallu, hagenda⟩, ha⟩ :=
    hfair.steps hfair.slots rfl ⟨hcall, rfl⟩ (fun u hu => hu.1) hstays
  have hload : r.workload u = r.workload t := by rw [workload, workload, hagenda, hcallu, hcall]
  exact ⟨u, htu, hagenda ▸ agenda_eq (ne_drain_of_call? hcallu),
    hload ▸ workload_succ_lt hcallu ha⟩

/-- The client of the loop begins whatever is on its agenda. -/
theorem Fair.exists_begins (hfair : r.Fair) (h : q ∈ (r.state t).agenda) :
    ∃ u, t ≤ u ∧ r.Begins 0 q u := by
  induction hload : r.workload t using Nat.strongRecOn generalizing t with
  | _ n ih =>
    obtain ⟨q', s, hcall⟩ := exists_call?_of_mem_agenda h
    obtain ⟨u, htu, hagenda, hlt⟩ := hfair.workload_lt hcall
    rw [hagenda, List.mem_append, Option.mem_toList] at h
    rcases h with hbegun | hrest
    · exact ⟨u, htu, begunIn_eq_some_iff.mp hbegun⟩
    · obtain ⟨v, huv, hbegins⟩ := ih _ (hload ▸ hlt) hrest rfl
      exact ⟨v, by omega, hbegins⟩

/-- The client of the loop has nothing to do at some time. -/
theorem Fair.exists_idle (hfair : r.Fair) (t : ℕ) :
    ∃ u, t ≤ u ∧ (r.state u).call? 0 = none := by
  induction hload : r.workload t using Nat.strongRecOn generalizing t with
  | _ n ih =>
    cases hcall : (r.state t).call? 0 with
    | none => exact ⟨t, Nat.le_refl t, hcall⟩
    | some x =>
      obtain ⟨u, htu, -, hlt⟩ := hfair.workload_lt hcall
      obtain ⟨v, huv, hidle⟩ := ih _ (hload ▸ hlt) (u + 1) rfl
      exact ⟨v, by omega, hidle⟩

/-- A call returns if it takes the next step at some time from wherever it comes to. -/
lemma Reaches.exists_returns {b : ℕ} (h : r.Reaches who q b t s) (hs : s ≠ .start)
    (htaken : ∀ u s', r.Reaches who q b u s' → s' ≠ .start → s'.rank ≤ s.rank →
      ∃ v, r.Steps who q b v s') : ∃ e a, r.Returns who q b e a := by
  induction hrank : s.rank using Nat.strongRecOn generalizing t s with
  | _ n ih =>
    obtain ⟨u, hsteps⟩ := htaken t s h hs (Nat.le_refl _)
    rcases hsteps.goes_or_returns with ⟨s', hs', hreach', rfl⟩ | ⟨a, hreturns⟩
    · have hlt := hsteps.move.rank_lt hs
      exact ih _ (hrank ▸ hlt) hreach' hs'
        (fun v s₀ h₀ hs₀ hle => htaken v s₀ h₀ hs₀ (Nat.le_trans hle (Nat.le_of_lt hlt))) rfl
    · exact ⟨u, a, hreturns⟩

lemma Fair.exists_returns_of_reaches {b : ℕ} (hfair : r.Fair)
    (hslots : r.StronglyFair (.advance who)) (hq : q.key? = some key) (h : r.Reaches who q b t s)
    (hs : s ≠ .start) : ∃ e a, r.Returns who q b e a := by
  refine h.exists_returns hs fun u s' hreach _ _ => ?_
  obtain ⟨v, -, hstill, ha⟩ := hfair.steps hslots hq (P := fun u => r.Reaches who q b u s') hreach
    (fun u hu => hu.call?) (fun u hu hne => hu.waits hne)
  exact ⟨v, hstill, ha⟩

/-- A call that has begun returns, if its caller gets a slot that becomes free again and again. -/
theorem Fair.exists_returns {b : ℕ} (hfair : r.Fair) (hslots : r.StronglyFair (.advance who))
    (hq : q.key? = some key) (h : r.Begins who q b) : ∃ e a, r.Returns who q b e a := by
  rcases h.under_way_or_returned (Nat.lt_succ_self b) with ⟨s, hs, hreach⟩ | ⟨e, a, -, hreturns⟩
  · exact hfair.exists_returns_of_reaches hslots hq hreach hs
  · exact ⟨e, a, hreturns⟩

end Run

end CompiledViews
