import CompiledViews.Proofs.Cache.Progress
import CompiledViews.Proofs.Cache.Tally

/-!
Calls end. A call that waits for a slot waits for one that can go on, so some call can always go on
while there is one. Every request has a number of steps that its call takes at the most, whatever
others do and whatever fails; a step takes from what is left of it, so a run that goes on as long as
it can comes to an end of all its calls, with every slot free.
-/

namespace CompiledViews

namespace Request

/-- The steps of a request at the most. -/
def maxSteps : Request → ℕ
  | .lookup _ | .invalidate _ => 7
  | .render _ _ => 8
  | .get _ | .clear => 1

/-- The steps that a call has before it at the most. -/
def stepsLeft (q : Request) : Stage → ℕ
  | .start => q.maxSteps
  | .waiting _ => q.maxSteps - 1
  | .holding _ => q.maxSteps - 2
  | .opening => q.maxSteps - 3
  | .making _ => q.maxSteps - 4
  | .storing _ => q.maxSteps - 5
  | .leaving _ => q.maxSteps - 6
  | .rendering _ => 1

lemma seven_le_maxSteps {q : Request} {key : String} (h : q.key? = some key) : 7 ≤ q.maxSteps := by
  cases q <;> simp_all [key?, maxSteps]

lemma maxSteps_pos (q : Request) : 0 < q.maxSteps := by cases q <;> simp [maxSteps]

lemma stepsLeft_pos {q : Request} {key : String} (h : q.key? = some key) (s : Stage) :
    0 < q.stepsLeft s := by
  have hmax := seven_le_maxSteps h
  cases s <;> simp only [stepsLeft] <;> omega

/-- The steps of requests at the most. -/
def totalSteps (qs : List Request) : ℕ := (qs.map maxSteps).sum

end Request

namespace Cache

variable {c : Cache} {t : FileTree} {who : Caller} {q : Request} {s : Stage} {o : Outcome}

/-- Only a call that may need the slot of a key goes on after a step. -/
theorem Move.exists_key (h : c.Move t who q s o) (ho : o.stage ≠ .start) :
    ∃ key, q.key? = some key := by
  cases h with
  | hit hq | hitLate hq | miss hq => exact ⟨_, Request.key?_of_lookupKey? hq⟩
  | evict hq | rebuilt hq | rebuild hq | evictLate hq | absent hq =>
    exact ⟨_, Request.key?_of_invalidationKey? hq⟩
  | ask hq | take hq | opens hq | unopened hq | fails hq | makes hq | stores hq | leaves hq =>
    exact ⟨_, hq⟩
  | unknown | forget | ignore | renders | gets | clears => exact absurd rfl ho

/-- Only the rendering of a view is left once a request is settled, if anything is. -/
lemma stepsLeft_settle_lt (a : Answer) (hstage : (q.settle a c).stage ≠ .start) :
    q.stepsLeft (q.settle a c).stage < q.maxSteps - 6 := by
  cases q with
  | render path model => cases a <;> simp_all [Request.settle, Request.stepsLeft, Request.maxSteps]
  | _ => simp [Request.settle] at hstage

/-- A call that goes on has fewer steps before it. -/
theorem Move.stepsLeft_lt (h : c.Move t who q s o) (ho : o.stage ≠ .start) :
    q.stepsLeft o.stage < q.stepsLeft s := by
  obtain ⟨key, hkey⟩ := h.exists_key ho
  have hmax := Request.seven_le_maxSteps hkey
  cases h with
  | unknown | forget | ignore | renders | gets | clears => exact absurd rfl ho
  | hit => exact Nat.lt_of_lt_of_le (stepsLeft_settle_lt _ ho) (Nat.sub_le _ _)
  | leaves => exact stepsLeft_settle_lt _ ho
  | _ => simp [Request.stepsLeft]; omega

theorem Move.stepsLeft_pos (h : c.Move t who q s o) : 0 < q.stepsLeft s := by
  by_cases hs : s = .start
  · exact hs ▸ q.maxSteps_pos
  · cases h with
    | hit | unknown | ask | evict | forget | ignore | gets | clears => exact absurd rfl hs
    | renders => exact Nat.one_pos
    | hitLate hq | miss hq => exact Request.stepsLeft_pos (Request.key?_of_lookupKey? hq) _
    | rebuilt hq | rebuild hq | evictLate hq | absent hq =>
      exact Request.stepsLeft_pos (Request.key?_of_invalidationKey? hq) _
    | take hq | opens hq | unopened hq | fails hq | makes hq | stores hq | leaves hq =>
      exact Request.stepsLeft_pos hq _

end Cache

/-- The steps that a client has before it at the most. -/
def Client.work (cl : Client) : ℕ :=
  match cl.todo with
  | [] => 0
  | q :: rest => q.stepsLeft cl.stage + Request.totalSteps rest

lemma Client.work_of_start {cl : Client} (h : cl.stage = .start) :
    cl.work = Request.totalSteps cl.todo := by
  unfold work
  split
  case h_1 htodo => rw [htodo]; rfl
  case h_2 q rest htodo => rw [htodo, h]; rfl

/-- A step takes from what a client has before it. -/
theorem Client.work_lt_of_advance {cl cl' : Client} {t : FileTree} {who : Caller} {c c' : Cache}
    (h : cl.advance t who c = some (cl', c')) : cl'.work < cl.work := by
  obtain ⟨q, rest, htodo, hcases⟩ := advance_eq_some h
  have hwork : cl.work = q.stepsLeft cl.stage + Request.totalSteps rest := by simp [work, htodo]
  rw [hwork]
  rcases hcases with ⟨s, hstep, rfl⟩ | ⟨a, hstep, rfl⟩
  · have hmove : c.Move t who q cl.stage _ := .of_step (by simp [hstep])
    rw [hstep] at hmove
    simpa [work, htodo] using hmove.stepsLeft_lt (hmove.ne_start rfl)
  · have hmove : c.Move t who q cl.stage _ := .of_step (by simp [hstep])
    rw [work_of_start rfl]
    exact Nat.lt_add_of_pos_left hmove.stepsLeft_pos

namespace Machine

variable {m m' : Machine} {x : Action}

/-- The steps that all clients have before them at the most. -/
def work (m : Machine) : ℕ := (m.clients.map Client.work).sum

/-- The requests that come with an action. -/
def incoming (m : Machine) : Action → List Request
  | .call requests => requests
  | .drain =>
    match m.loop with
    | .idle => []
    | .gathering first => invalidations (first :: m.queue)
  | .advance _ | .edit _ | .notify _ | .receive => []

lemma sum_map_set {α : Type*} (f : α → ℕ) {as : List α} {n : ℕ} {a b : α} (h : as[n]? = some a) :
    ((as.set n b).map f).sum + f a = (as.map f).sum + f b := by
  induction as generalizing n with
  | nil => simp at h
  | cons c as ih =>
    cases n with
    | zero =>
      obtain rfl : c = a := by simpa using h
      simp only [List.set_cons_zero, List.map_cons, List.sum_cons]
      omega
    | succ n =>
      have hrest := ih (n := n) (by simpa using h)
      simp only [List.set_cons_succ, List.map_cons, List.sum_cons]
      omega

/-- A step of a call takes from the work, and only requests that come add to it. -/
theorem Tidy.work_of_act (hm : m.Tidy) (h : m.act x = some m') :
    (∃ who, x = .advance who) ∧ m'.work < m.work ∨
      (∀ who, x ≠ .advance who) ∧ m'.work = m.work + Request.totalSteps (m.incoming x) := by
  cases x with
  | advance who =>
    obtain ⟨cl, cl', c', hcl, hadv, rfl⟩ := act_advance_eq_some h
    have hset := sum_map_set Client.work (b := cl') hcl
    have hlt := Client.work_lt_of_advance hadv
    refine .inl ⟨⟨who, rfl⟩, ?_⟩
    simp only [work]
    omega
  | call requests =>
    obtain rfl := Option.some.inj h
    refine .inr ⟨by simp, ?_⟩
    simp [work, incoming, Client.work_of_start]
  | edit files | notify path =>
    obtain rfl := Option.some.inj h
    exact .inr ⟨by simp, rfl⟩
  | receive =>
    obtain ⟨first, rest, -, -, -, rfl⟩ := act_receive_eq_some h
    exact .inr ⟨by simp, rfl⟩
  | drain =>
    obtain ⟨first, hloop, rfl⟩ := act_drain_eq_some h
    obtain ⟨cl, hcl, htodo⟩ := isIdle_iff.mp (hm.gathers (by simp [hloop]))
    have hstart := hm.rests 0 cl hcl htodo
    refine .inr ⟨by simp, ?_⟩
    cases hclients : m.clients with
    | nil => simp [hclients] at hcl
    | cons cl₀ rest =>
      obtain rfl : cl₀ = cl := by simpa [hclients] using hcl
      have hbefore : cl₀.work = 0 := by simp [Client.work, htodo]
      have hafter : Client.work { cl₀ with todo := invalidations (first :: m.queue) } = _ :=
        Client.work_of_start hstart
      simp [work, incoming, hloop, hclients, hbefore, hafter, Nat.add_comm]

end Machine

namespace Run

variable (r : Run)

/-- The requests that come in a turn. -/
def requested (t : ℕ) : List Request := ((r.action t).map (r.state t).incoming).getD []

/-- Whether one of the given callers takes a step in a turn. -/
def stepsIn (P : Caller → Bool) (t : ℕ) : Bool :=
  match r.action t with
  | some (.advance who) => P who
  | _ => false

/-- How many steps the given callers take from turn `a` on and before turn `z`. -/
def stepCount (P : Caller → Bool) (a z : ℕ) : ℕ := (List.range' a (z - a)).countP (r.stepsIn P)

variable {r} {P : Caller → Bool} {who w : Caller} {q : Request} {s : Stage} {a b e t n : ℕ}
  {key : String}

lemma stepCount_succ (h : a ≤ t) :
    r.stepCount P a (t + 1) = r.stepCount P a t + (r.stepsIn P t).toNat := by
  rw [stepCount, turns_succ h, List.countP_append, ← stepCount, List.countP_singleton]
  cases r.stepsIn P t <;> rfl

@[simp] lemma stepCount_self : r.stepCount P a a = 0 := by simp [stepCount]

/-! A call takes no more steps than its request has at the most. -/

/-- What a call has taken and what it has before it are not more than it began with. -/
theorem Reaches.stepCount_add_le (h : r.Reaches who q b t s) :
    r.stepCount (· = who) b t + q.stepsLeft s ≤ q.maxSteps := by
  induction h with
  | begins => simp [Request.stepsLeft]
  | @waits t s h hne ih =>
    have hin : r.stepsIn (· = who) t = false := by
      unfold stepsIn
      split
      case h_1 w ha => exact decide_eq_false fun hw => hne (hw ▸ ha)
      case h_2 => rfl
    rw [stepCount_succ h.le, hin]
    exact ih
  | @goes t s s' c h ha ho ih =>
    have hmove := (show r.Steps who q b t s from ⟨h, ha⟩).move
    rw [ho] at hmove
    have hlt := hmove.stepsLeft_lt (hmove.ne_start rfl)
    have hin : r.stepsIn (· = who) t = true := by simp [stepsIn, ha]
    rw [stepCount_succ h.le, hin]
    simp only [Bool.toNat_true, Outcome.stage_going] at hlt ⊢
    omega

theorem Returns.stepCount_le {answer : Answer} (h : r.Returns who q b e answer) :
    r.stepCount (· = who) b (e + 1) ≤ q.maxSteps := by
  obtain ⟨s, c, hsteps, -⟩ := h
  have hle := hsteps.1.stepCount_add_le
  have hpos := hsteps.move.stepsLeft_pos
  have hin : r.stepsIn (· = who) e = true := by simp [stepsIn, hsteps.2]
  rw [stepCount_succ hsteps.1.le, hin, Bool.toNat_true]
  omega

/-! All calls together. -/

theorem work_of_turn (t : ℕ) :
    r.stepsIn (fun _ => true) t = true ∧ (r.state (t + 1)).work < (r.state t).work ∨
      r.stepsIn (fun _ => true) t = false ∧ (r.state (t + 1)).work =
        (r.state t).work + Request.totalSteps (r.requested t) := by
  cases ha : r.action t with
  | none =>
    refine .inr ⟨by simp [stepsIn, ha], ?_⟩
    rw [r.state_succ_of_pause t ha]
    simp [requested, ha, Request.totalSteps]
  | some x =>
    rcases (r.tidy t).work_of_act (r.act_eq t ha) with ⟨⟨who, rfl⟩, hlt⟩ | ⟨hno, heq⟩
    · exact .inl ⟨by simp [stepsIn, ha], hlt⟩
    · refine .inr ⟨?_, by simpa [requested, ha] using heq⟩
      unfold stepsIn
      split
      case h_1 who hadv => exact absurd (Option.some.inj (ha.symm.trans hadv)) (hno who)
      case h_2 => rfl

/-- All steps taken and those that are left are not more than the requests that have come have at
the most. -/
theorem stepCount_add_work_le (r : Run) (t : ℕ) :
    r.stepCount (fun _ => true) 0 t + (r.state t).work ≤
      ((List.range t).map fun u => Request.totalSteps (r.requested u)).sum := by
  induction t with
  | zero =>
    obtain ⟨files, registry, workshop, h⟩ := r.fresh
    simp [h, Machine.fresh, Machine.work, Client.work]
  | succ t ih =>
    rw [stepCount_succ (Nat.zero_le t), List.range_succ, List.map_append, List.sum_append]
    simp only [List.map_cons, List.map_nil, List.sum_cons, List.sum_nil]
    rcases work_of_turn (r := r) t with ⟨hin, hlt⟩ | ⟨hin, heq⟩
    · rw [hin, Bool.toNat_true]
      omega
    · rw [hin, Bool.toNat_false]
      omega

/-- Where no requests come, the work does not grow. -/
lemma work_le (hquiet : ∀ u, n ≤ u → r.requested u = []) (hnt : n ≤ t) :
    (r.state t).work ≤ (r.state n).work := by
  induction t, hnt using Nat.le_induction with
  | base => exact Nat.le_refl _
  | succ u hnu ih =>
    rcases work_of_turn (r := r) u with ⟨-, hlt⟩ | ⟨-, heq⟩
    · omega
    · rw [heq, hquiet u hnu]
      exact ih

/-- Once no more requests come, there is an end of steps. -/
theorem exists_no_steps (hquiet : ∀ t, n ≤ t → r.requested t = []) :
    ∃ m, n ≤ m ∧ ∀ t, m ≤ t → r.stepsIn (fun _ => true) t = false := by
  induction hwork : (r.state n).work using Nat.strongRecOn generalizing n with
  | _ k ih =>
    by_cases hsteps : ∃ t, n ≤ t ∧ r.stepsIn (fun _ => true) t = true
    · obtain ⟨t, hnt, hin⟩ := hsteps
      have hlt : (r.state (t + 1)).work < k := by
        rcases work_of_turn (r := r) t with ⟨-, hlt⟩ | ⟨hno, -⟩
        · exact Nat.lt_of_lt_of_le hlt (hwork ▸ work_le hquiet hnt)
        · rw [hno] at hin
          cases hin
      obtain ⟨m, htm, hm⟩ := ih _ hlt (fun u htu => hquiet u (by omega)) rfl
      exact ⟨m, by omega, hm⟩
    · refine ⟨n, Nat.le_refl n, fun t hnt => ?_⟩
      rw [← Bool.not_eq_true]
      exact fun hin => hsteps ⟨t, hnt, hin⟩

/-! Somebody can go on. -/

/-- A call that does not wait for a slot that is held can go on. -/
theorem enabled_of_not_held (hcall : (r.state t).call? who = some (q, s))
    (hfree : ∀ e key, s = .waiting e → q.key? = some key →
      (r.state t).cache.holder? key = none) : r.Enabled (.advance who) t := by
  cases hq : q.key? with
  | some key => exact enabled_of_key? hcall hq fun e he => hfree e key he hq
  | none =>
    -- such a call is at its start
    have hs : s = .start := by
      by_contra hs
      obtain ⟨b, hreach⟩ := exists_reaches hs hcall
      obtain ⟨u, s', -, hsteps, rfl⟩ := hreach.exists_steps hs
      obtain ⟨key, hkey⟩ := hsteps.move.exists_key hs
      rw [hq] at hkey
      cases hkey
    subst hs
    refine enabled_of_call? hcall ?_
    cases q with
    | get path | clear => simp [outcomeAt, Cache.step]
    | _ => cases hq

/-- Whoever holds a slot holds this one alone, does not wait, and can go on. -/
theorem holder_goes_on (h : (r.state t).cache.holder? key = some w) :
    (∃ q s, (r.state t).call? w = some (q, s) ∧ q.key? = some key ∧ s.holds ∧
      ∀ e, s ≠ .waiting e) ∧
    (∀ k, (r.state t).cache.holder? k = some w ↔ k = key) ∧ r.Enabled (.advance w) t := by
  obtain ⟨q, s, hcall, hs, hq⟩ := ((r.coherent t).held key w).mp h
  have hwaits : ∀ e, s ≠ .waiting e := by
    rintro e rfl
    cases hs
  refine ⟨⟨q, s, hcall, hq, hs, hwaits⟩, fun k => ⟨fun hk => ?_, fun hk => hk ▸ h⟩, ?_⟩
  · obtain ⟨q', s', hcall', -, hq'⟩ := ((r.coherent t).held k w).mp hk
    obtain ⟨rfl, -⟩ := Machine.call?_unique hcall hcall'
    exact Option.some.inj (hq'.symm.trans hq)
  · exact enabled_of_not_held hcall fun e _ he => absurd he (hwaits e)

/-- A call that waits holds nothing. -/
theorem not_holds_of_waiting {e : Bool} (hcall : (r.state t).call? who = some (q, .waiting e))
    (k : String) : (r.state t).cache.holder? k ≠ some who := by
  intro h
  obtain ⟨q', s', hcall', hs', -⟩ := ((r.coherent t).held k who).mp h
  obtain ⟨-, rfl⟩ := Machine.call?_unique hcall hcall'
  cases hs'

/-- While there is a call, some call can go on: it, or the one whose slot it waits for. -/
theorem exists_enabled (hcall : (r.state t).call? who = some (q, s)) :
    ∃ w, r.Enabled (.advance w) t := by
  by_cases hheld : ∃ key w, q.key? = some key ∧ (r.state t).cache.holder? key = some w
  · obtain ⟨key, w, -, hholder⟩ := hheld
    exact ⟨w, (holder_goes_on hholder).2.2⟩
  · refine ⟨who, enabled_of_not_held hcall fun e key _ hq => ?_⟩
    cases hholder : (r.state t).cache.holder? key with
    | none => rfl
    | some w => exact absurd ⟨key, w, hq, hholder⟩ hheld

/-- The calls of a run go on as long as one of them can. -/
def Maximal (r : Run) : Prop :=
  ∀ t who, r.Enabled (.advance who) t → ∃ u, t ≤ u ∧ r.stepsIn (fun _ => true) u = true

/-- If no more requests come to a run that goes on as long as it can, all calls are over at last. -/
theorem Maximal.exists_over (h : r.Maximal) (hquiet : ∀ t, n ≤ t → r.requested t = []) :
    ∃ m, n ≤ m ∧ ∀ t, m ≤ t → ∀ who, (r.state t).call? who = none := by
  obtain ⟨m, hnm, hm⟩ := exists_no_steps hquiet
  refine ⟨m, hnm, fun t hmt who => ?_⟩
  cases hcall : (r.state t).call? who with
  | none => rfl
  | some call =>
    obtain ⟨q, s⟩ := call
    obtain ⟨w, hon⟩ := exists_enabled hcall
    obtain ⟨u, htu, hin⟩ := h t w hon
    rw [hm u (by omega)] at hin
    cases hin

/-- A run that comes to its end with a step goes on as long as it can. -/
lemma maximal_of_done (hin : r.stepsIn (fun _ => true) n = true)
    (hdone : ∀ t, n < t → (r.state t).isDone) : r.Maximal := by
  intro t who hon
  refine ⟨n, ?_, hin⟩
  by_contra hlt
  exact (Machine.of_act_of_isDone (hdone t (Nat.lt_of_not_le hlt)) hon).2.2 who rfl

/-- While there is a call that has not returned, some call can take a step. A call that waits for a
slot holds none; if the slot is free it can take it, and if not, the call that holds the slot holds
no other, does not wait and can go on. No call takes more steps than its request has at the most, so
all calls together take no more than the requests that have come have at the most. If from some time
on no more requests come to a run that goes on as long as it can, there is a time from which on all
calls have returned and all slots are free. -/
theorem calls_end (r : Run) :
    (∀ t who q s, (r.state t).call? who = some (q, s) → ∃ w, r.Enabled (.advance w) t) ∧
    (∀ t who q e key, (r.state t).call? who = some (q, .waiting e) → q.key? = some key →
      (∀ k, (r.state t).cache.holder? k ≠ some who) ∧
      ((r.state t).cache.holder? key = none → r.Enabled (.advance who) t) ∧
      ∀ w, (r.state t).cache.holder? key = some w → w ≠ who ∧
        (∃ q' s', (r.state t).call? w = some (q', s') ∧ q'.key? = some key ∧ s'.holds ∧
          ∀ e', s' ≠ .waiting e') ∧
        (∀ k, (r.state t).cache.holder? k = some w ↔ k = key) ∧ r.Enabled (.advance w) t) ∧
    (∀ who q b t s, r.Reaches who q b t s → r.stepCount (· = who) b t ≤ q.maxSteps) ∧
    (∀ who q b e a, r.Returns who q b e a → r.stepCount (· = who) b (e + 1) ≤ q.maxSteps) ∧
    (∀ t, r.stepCount (fun _ => true) 0 t ≤
      ((List.range t).map fun u => Request.totalSteps (r.requested u)).sum) ∧
    ∀ n, r.Maximal → (∀ t, n ≤ t → r.requested t = []) → ∃ m, n ≤ m ∧ ∀ t, m ≤ t →
      (∀ who, (r.state t).call? who = none) ∧ (∀ key, (r.state t).cache.holder? key = none) ∧
      ∀ who q b, b < t → r.Begins who q b → ∃ e a, e < t ∧ r.Returns who q b e a := by
  refine ⟨fun t who q s hcall => exists_enabled hcall, fun t who q e key hcall hq => ?_,
    fun who q b t s h => Nat.le_of_add_right_le h.stepCount_add_le,
    fun who q b e a h => h.stepCount_le,
    fun t => Nat.le_of_add_right_le (r.stepCount_add_work_le t), fun n hmax hquiet => ?_⟩
  · have hno := not_holds_of_waiting hcall
    refine ⟨hno, fun hfree => enabled_of_key? hcall hq fun _ _ => hfree, fun w hw => ?_⟩
    exact ⟨fun he => hno key (he ▸ hw), holder_goes_on hw⟩
  · obtain ⟨m, hnm, hover⟩ := hmax.exists_over hquiet
    refine ⟨m, hnm, fun t hmt => ⟨hover t hmt, fun key => ?_, fun who q b hbt hbegins => ?_⟩⟩
    · cases hholder : (r.state t).cache.holder? key with
      | none => rfl
      | some w =>
        obtain ⟨⟨q, s, hcall, -⟩, -⟩ := holder_goes_on hholder
        rw [hover t hmt w] at hcall
        cases hcall
    · refine hbegins.returned hbt fun s hcall => ?_
      rw [hover t hmt who] at hcall
      cases hcall

/-- The actions of a lookup of a view and an invalidation that waits for its slot. -/
def lookupAndInvalidation : List Action :=
  [.call [.lookup "/a"], .call [.invalidate "/a"], .advance 1, .advance 2] ++
    List.replicate 6 (.advance 1) ++ List.replicate 6 (.advance 2)

/-- A view is invalidated while it is looked up for the first time: the invalidation waits for the
slot of the lookup. -/
def lookedUpAndInvalidated : Run :=
  .ofActions .blank lookupAndInvalidation Machine.exists_blank_eq_fresh rfl

/-- From turn 2 on there are only steps of the two calls. -/
lemma requested_lookedUpAndInvalidated {t : ℕ} (h : 2 ≤ t) :
    lookedUpAndInvalidated.requested t = [] := by
  have haction : lookedUpAndInvalidated.action t = lookupAndInvalidation[t]? := rfl
  cases ha : lookupAndInvalidation[t]? with
  | none => simp [requested, haction, ha]
  | some x =>
    have hmem : x ∈ lookupAndInvalidation.drop 2 :=
      List.mem_of_getElem? (i := t - 2) (by rw [List.getElem?_drop, ← ha]; congr; omega)
    obtain rfl | rfl : x = .advance 1 ∨ x = .advance 2 := by
      revert hmem
      simp [lookupAndInvalidation]
      aesop
    all_goals simp [requested, haction, ha, Machine.incoming]

theorem calls_end_lookedUpAndInvalidated :
    lookedUpAndInvalidated.Enabled (.advance 1) 5 ∧
      ¬ lookedUpAndInvalidated.Enabled (.advance 2) 5 ∧
      ∃ m, ∀ t, m ≤ t →
        (∀ key, (lookedUpAndInvalidated.state t).cache.holder? key = none) ∧
        ∃ e a, e < t ∧ lookedUpAndInvalidated.Returns 2 (.invalidate "/a") 3 e a := by
  obtain ⟨-, hwaits, -, -, -, hover⟩ := calls_end lookedUpAndInvalidated
  have hholder : (lookedUpAndInvalidated.state 5).cache.holder? "/a" = some 1 := rfl
  have hon := ((hwaits 5 2 (.invalidate "/a") false "/a" rfl rfl).2.2 1 hholder).2.2.2
  have hdone (t : ℕ) (ht : 15 < t) : (lookedUpAndInvalidated.state t).isDone := by
    have hlen : lookupAndInvalidation.length ≤ t := ht
    have hstate : lookedUpAndInvalidated.state t =
        (Machine.blank.run lookupAndInvalidation).getD .blank := ofActions_state _ rfl hlen
    rw [hstate]
    rfl
  obtain ⟨m, -, hm⟩ := hover 2 (maximal_of_done rfl hdone) fun _ => requested_lookedUpAndInvalidated
  refine ⟨hon, by simp [Enabled]; rfl, max m 4, fun t ht => ?_⟩
  obtain ⟨-, hfree, hreturned⟩ := hm t (by omega)
  exact ⟨hfree, hreturned 2 (.invalidate "/a") 3 (by omega) ⟨rfl, rfl⟩⟩

end Run

end CompiledViews
