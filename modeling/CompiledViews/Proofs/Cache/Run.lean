import CompiledViews.Cache.Machine
import CompiledViews.Proofs.Cache.Effect

/-!
Runs of the machine. A run begins with an empty cache on which nobody has called, and goes on for
ever, in any order of actions and pauses. A turn of it is a move of one call, or leaves the cache
and the calls that are under way as they are.
-/

namespace CompiledViews

/-- The request that a client is at, and the stage that it has come to with it. -/
def Client.call? (cl : Client) : Option (Request × Stage) := cl.todo.head?.map (·, cl.stage)

/-- A step of a client is a step of its call. -/
theorem Client.advance_eq_some {cl cl' : Client} {t : FileTree} {who : Caller} {c c' : Cache}
    (h : cl.advance t who c = some (cl', c')) :
    ∃ q rest, cl.todo = q :: rest ∧
      ((∃ s, c.step t who q cl.stage = .going s c' ∧ cl' = { cl with stage := s }) ∨
        ∃ a, c.step t who q cl.stage = .finished a c' ∧
          cl' = ⟨rest, .start, cl.answers ++ [a]⟩) := by
  unfold advance at h
  split at h
  · cases h
  case h_2 q rest htodo =>
    refine ⟨q, rest, htodo, ?_⟩
    split at h
    · cases h
    case h_2 s d hstep =>
      cases h
      exact .inl ⟨s, hstep, rfl⟩
    case h_3 a d hstep =>
      cases h
      exact .inr ⟨a, hstep, rfl⟩

namespace Machine

/-- A machine with an empty cache, on which nobody has called. -/
def fresh (files : FileTree) (registry : Registry) (workshop : Workshop) : Machine :=
  { files := files, cache := { registry := registry, workshop := workshop } }

/-- The request that a caller is at, and the stage that it has come to with it. -/
def call? (m : Machine) (who : Caller) : Option (Request × Stage) :=
  m.clients[who]?.bind Client.call?

lemma call?_eq_some_iff {m : Machine} {who : Caller} {q : Request} {s : Stage} :
    m.call? who = some (q, s) ↔
      ∃ cl rest, m.clients[who]? = some cl ∧ cl.todo = q :: rest ∧ cl.stage = s := by
  simp only [call?, Client.call?, Option.bind_eq_some_iff, Option.map_eq_some_iff,
    List.head?_eq_some_iff, Prod.mk.injEq]
  constructor
  · rintro ⟨cl, hcl, q', ⟨rest, htodo⟩, rfl, hs⟩
    exact ⟨cl, rest, hcl, htodo, hs⟩
  · rintro ⟨cl, rest, hcl, htodo, hs⟩
    exact ⟨cl, hcl, q, ⟨rest, htodo⟩, rfl, hs⟩

/-- The stages of all clients. -/
def stages (m : Machine) : List Stage := m.clients.map (·.stage)

/-- In one turn a machine takes an action or pauses. -/
def turn (m : Machine) : Option Action → Option Machine
  | none => some m
  | some a => m.act a

theorem act_advance_eq_some {m m' : Machine} {who : Caller} (h : m.act (.advance who) = some m') :
    ∃ cl cl' c', m.clients[who]? = some cl ∧ cl.advance m.files who m.cache = some (cl', c') ∧
      m' = { m with cache := c', clients := m.clients.set who cl' } := by
  simp only [act, Option.bind_eq_bind, Option.bind_eq_some_iff] at h
  obtain ⟨cl, hcl, ⟨cl', c'⟩, hadv, hm⟩ := h
  exact ⟨cl, cl', c', hcl, hadv, (Option.some.inj hm).symm⟩

theorem act_receive_eq_some {m m' : Machine} (h : m.act .receive = some m') :
    ∃ first rest, m.loop = .idle ∧ m.isIdle ∧ m.queue = first :: rest ∧
      m' = { m with loop := .gathering first, queue := rest } := by
  simp only [act] at h
  split at h
  case h_1 first rest hloop hidle hqueue =>
    exact ⟨first, rest, hloop, hidle, hqueue, (Option.some.inj h).symm⟩
  · cases h

theorem act_drain_eq_some {m m' : Machine} (h : m.act .drain = some m') :
    ∃ first, m.loop = .gathering first ∧
      m' = { m with
        loop := .idle
        queue := []
        clients := m.clients.modify 0 fun cl =>
          { cl with todo := invalidations (first :: m.queue) } } := by
  simp only [act] at h
  split at h
  · cases h
  case h_2 first hloop => exact ⟨first, hloop, (Option.some.inj h).symm⟩

/-- Whoever has nothing to do is at no stage, and the loop has nothing to do while it gathers. -/
structure Tidy (m : Machine) : Prop where
  rests : ∀ (who : Caller) (cl : Client), m.clients[who]? = some cl → cl.todo = [] →
    cl.stage = .start
  gathers : m.loop ≠ .idle → m.isIdle

/-- One turn is a move of the call of `who`. -/
structure Moves (m m' : Machine) (who : Caller) (q : Request) (s : Stage) (o : Outcome) : Prop where
  call : m.call? who = some (q, s)
  step : m.cache.step m.files who q s = o
  move : m.cache.Move m.files who q s o
  cache : m'.cache = o.cache m.cache
  going : o.stage ≠ .start → m'.call? who = some (q, o.stage)
  next : ∀ q' s', m'.call? who = some (q', s') → q' = q ∧ s' = o.stage ∨ s' = .start
  others : ∀ w, w ≠ who → m'.call? w = m.call? w
  stage : m.stages[who]? = some s
  stages : m'.stages = m.stages.set who o.stage

/-- One turn moves no call, but new ones may have come. -/
structure Rests (m m' : Machine) : Prop where
  cache : m'.cache = m.cache
  calls : ∀ w, m'.call? w = m.call? w ∨ m.call? w = none ∧ ∃ q, m'.call? w = some (q, .start)
  stages : m'.stages = m.stages ∨ m'.stages = m.stages ++ [.start]

namespace Rests

variable {m m' : Machine} {who : Caller} {q : Request} {s : Stage}

lemma call?_eq_some (h : m.Rests m') (hcall : m.call? who = some (q, s)) :
    m'.call? who = some (q, s) := by
  rcases h.calls who with hsame | ⟨hnone, -⟩
  · rwa [hsame]
  · simp [hnone] at hcall

/-- A call that is past its start is not one of those that have come. -/
lemma call?_of_ne_start (h : m.Rests m') (hcall : m'.call? who = some (q, s)) (hs : s ≠ .start) :
    m.call? who = some (q, s) := by
  rcases h.calls who with hsame | ⟨-, q', hnew⟩
  · rwa [← hsame]
  · rw [hnew] at hcall
    simp only [Option.some.injEq, Prod.mk.injEq] at hcall
    exact absurd hcall.2.symm hs

end Rests

theorem moves_of_advance {m m' : Machine} {who : Caller} (h : m.act (.advance who) = some m') :
    ∃ q s o, m.Moves m' who q s o := by
  obtain ⟨cl, cl', c', hcl, hadv, rfl⟩ := act_advance_eq_some h
  obtain ⟨q, rest, htodo, hcases⟩ := Client.advance_eq_some hadv
  have hlt : who < m.clients.length := (List.getElem?_eq_some_iff.mp hcl).1
  have hcall : m.call? who = some (q, cl.stage) := call?_eq_some_iff.mpr ⟨cl, rest, hcl, htodo, rfl⟩
  have hothers : ∀ w, w ≠ who →
      call? { m with cache := c', clients := m.clients.set who cl' } w = m.call? w := by
    intro w hw
    simp [call?, List.getElem?_set_ne (Ne.symm hw)]
  have hstage : m.stages[who]? = some cl.stage := by simp [stages, hcl]
  rcases hcases with ⟨s, hstep, rfl⟩ | ⟨a, hstep, rfl⟩
  · refine ⟨q, cl.stage, _, hcall, hstep, hstep ▸ .of_step (by simp [hstep]), rfl, ?_, ?_, hothers,
      hstage, by simp [stages, List.map_set]⟩
    · simp [call?, hlt, Client.call?, htodo]
    · intro q' s' h'
      simp [call?, hlt, Client.call?, htodo] at h'
      exact .inl ⟨h'.1.symm, h'.2.symm⟩
  · refine ⟨q, cl.stage, _, hcall, hstep, hstep ▸ .of_step (by simp [hstep]), rfl, ?_, ?_, hothers,
      hstage, by simp [stages, List.map_set]⟩
    · simp
    · intro q' s' h'
      simp [call?, hlt, Client.call?] at h'
      exact .inr h'.2.symm

lemma isIdle_iff {m : Machine} : m.isIdle ↔ ∃ cl, m.clients[0]? = some cl ∧ cl.todo = [] := by
  unfold isIdle
  cases m.clients[0]? <;> simp

lemma call?_eq_none_of_isIdle {m : Machine} (h : m.isIdle) : m.call? 0 = none := by
  obtain ⟨cl, hcl, htodo⟩ := isIdle_iff.mp h
  simp [call?, hcl, Client.call?, htodo]

/-- Only a drain gives the client of the loop something to do. -/
lemma isIdle_of_act {m m' : Machine} {a : Action} (h : m.act a = some m')
    (hidle : m.isIdle) (hdrain : a ≠ .drain) : m'.isIdle := by
  obtain ⟨cl, hcl, htodo⟩ := isIdle_iff.mp hidle
  cases a with
  | call requests =>
    obtain rfl := Option.some.inj h
    have hlt := (List.getElem?_eq_some_iff.mp hcl).1
    exact isIdle_iff.mpr ⟨cl, (List.getElem?_append_left hlt).trans hcl, htodo⟩
  | edit files | notify path =>
    obtain rfl := Option.some.inj h
    exact hidle
  | advance who =>
    obtain ⟨cl', d, c', hcl', hadv, rfl⟩ := act_advance_eq_some h
    obtain ⟨q, rest, hcons, -⟩ := Client.advance_eq_some hadv
    have hne : who ≠ 0 := by
      rintro rfl
      obtain rfl := Option.some.inj (hcl.symm.trans hcl')
      simp [htodo] at hcons
    exact isIdle_iff.mpr ⟨cl, by simpa [List.getElem?_set_ne hne] using hcl, htodo⟩
  | receive =>
    obtain ⟨first, rest, -, -, -, rfl⟩ := act_receive_eq_some h
    exact hidle
  | drain => exact absurd rfl hdrain

lemma call?_fresh (files : FileTree) (registry : Registry) (workshop : Workshop) (who : Caller) :
    (fresh files registry workshop).call? who = none := by
  cases who <;> simp [fresh, call?, Client.call?]

lemma tidy_fresh (files : FileTree) (registry : Registry) (workshop : Workshop) :
    (fresh files registry workshop).Tidy where
  rests who cl hcl _ := by
    have hmem := List.mem_of_getElem? hcl
    obtain rfl : cl = { todo := [] } := by simpa [fresh] using hmem
    rfl
  gathers h := absurd rfl h

/-- A client that has moved is tidy again, since only a call that has something to do moves. -/
lemma Tidy.advance {m m' : Machine} {who : Caller} (hm : m.Tidy)
    (h : m.act (.advance who) = some m') : m'.Tidy := by
  have hidle := fun hloop => isIdle_of_act h (hm.gathers hloop) (by simp)
  obtain ⟨cl, cl', c', hcl, hadv, rfl⟩ := act_advance_eq_some h
  obtain ⟨q, rest, htodo, hcases⟩ := Client.advance_eq_some hadv
  constructor
  · intro w d hd hdtodo
    by_cases hw : w = who
    · subst hw
      have hlt : w < m.clients.length := (List.getElem?_eq_some_iff.mp hcl).1
      obtain rfl : cl' = d := by simpa [hlt] using hd
      rcases hcases with ⟨s, -, rfl⟩ | ⟨a, -, rfl⟩
      · simp [htodo] at hdtodo
      · rfl
    · exact hm.rests w d (by simpa [List.getElem?_set_ne (Ne.symm hw)] using hd) hdtodo
  · exact hidle

/-- New requests come at no stage. -/
lemma getElem?_call {m : Machine} {requests : List Request} {who : Caller} {cl : Client}
    (h : (m.clients ++ [{ todo := requests }])[who]? = some cl) :
    m.clients[who]? = some cl ∨ m.clients[who]? = none ∧ cl = { todo := requests } := by
  by_cases hlt : who < m.clients.length
  · exact .inl (by rwa [List.getElem?_append_left hlt] at h)
  · have hge := Nat.le_of_not_lt hlt
    rw [List.getElem?_append_right hge] at h
    exact .inr ⟨List.getElem?_eq_none hge, List.mem_singleton.mp (List.mem_of_getElem? h)⟩

lemma Tidy.act {m m' : Machine} {a : Action} (hm : m.Tidy) (h : m.act a = some m') : m'.Tidy := by
  cases a with
  | advance who => exact hm.advance h
  | call requests =>
    have hidle := fun hloop => isIdle_of_act h (hm.gathers hloop) (by simp)
    obtain rfl := Option.some.inj h
    refine ⟨fun w cl hcl htodo => ?_, hidle⟩
    rcases getElem?_call hcl with hcl | ⟨-, rfl⟩
    · exact hm.rests w cl hcl htodo
    · rfl
  | edit files | notify path =>
    obtain rfl := Option.some.inj h
    exact ⟨hm.rests, hm.gathers⟩
  | receive =>
    obtain ⟨first, rest, -, hidle, -, rfl⟩ := act_receive_eq_some h
    exact ⟨hm.rests, fun _ => hidle⟩
  | drain =>
    obtain ⟨first, hloop, rfl⟩ := act_drain_eq_some h
    refine ⟨fun w cl hcl htodo => ?_, fun hne => absurd rfl hne⟩
    obtain ⟨cl₀, hcl₀, htodo₀⟩ := isIdle_iff.mp (hm.gathers (by simp [hloop]))
    rw [List.getElem?_modify] at hcl
    by_cases hw : 0 = w
    · subst hw
      obtain rfl : _ = cl := by simpa [hcl₀] using hcl
      exact hm.rests 0 cl₀ hcl₀ htodo₀
    · exact hm.rests w cl (by simpa [hw] using hcl) htodo

/-- No action but a step of a call touches the cache or a call that is under way. -/
lemma Tidy.rests_of_act {m m' : Machine} {a : Action} (hm : m.Tidy) (h : m.act a = some m')
    (ha : ∀ who, a ≠ .advance who) : m.Rests m' := by
  cases a with
  | advance who => exact absurd rfl (ha who)
  | call requests =>
    obtain rfl := Option.some.inj h
    refine ⟨rfl, fun w => ?_, .inr (by simp [stages])⟩
    cases hw : (m.clients ++ [{ todo := requests }])[w]? with
    | none =>
      have hge := List.getElem?_eq_none_iff.mp hw
      have hnone : m.clients[w]? = none := by simp at hge ⊢; omega
      exact .inl (by simp [call?, hw, hnone])
    | some cl =>
      rcases getElem?_call hw with hcl | ⟨hnone, rfl⟩
      · exact .inl (by simp [call?, hw, hcl])
      · cases requests with
        | nil => exact .inl (by simp [call?, hw, hnone, Client.call?])
        | cons q rest => exact .inr ⟨by simp [call?, hnone], q, by simp [call?, hw, Client.call?]⟩
  | edit files | notify path =>
    obtain rfl := Option.some.inj h
    exact ⟨rfl, fun w => .inl rfl, .inl rfl⟩
  | receive =>
    obtain ⟨first, rest, -, -, -, rfl⟩ := act_receive_eq_some h
    exact ⟨rfl, fun w => .inl rfl, .inl rfl⟩
  | drain =>
    obtain ⟨first, hloop, rfl⟩ := act_drain_eq_some h
    refine ⟨rfl, fun w => ?_, .inl ?_⟩
    · obtain ⟨cl₀, hcl₀, htodo₀⟩ := isIdle_iff.mp (hm.gathers (by simp [hloop]))
      by_cases hw : 0 = w
      · subst hw
        have hstart := hm.rests 0 cl₀ hcl₀ htodo₀
        cases invalidations (first :: m.queue) with
        | nil => exact .inl (by simp [call?, hcl₀, Client.call?, htodo₀])
        | cons q rest =>
          refine .inr ⟨by simp [call?, hcl₀, Client.call?, htodo₀], q, ?_⟩
          simp [call?, hcl₀, Client.call?, hstart]
      · exact .inl (by simp [call?, hw])
    · cases hclients : m.clients <;> simp [stages, hclients]

end Machine

/-- A machine in the course of time: the machine before each turn, and the action of the turn. -/
structure Run where
  state : ℕ → Machine
  action : ℕ → Option Action
  fresh : ∃ files registry workshop, state 0 = .fresh files registry workshop
  next : ∀ t, (state t).turn (action t) = some (state (t + 1))

namespace Run

variable (r : Run) (t : ℕ)

lemma act_eq {a : Action} (h : r.action t = some a) :
    (r.state t).act a = some (r.state (t + 1)) := by
  simpa [h, Machine.turn] using r.next t

lemma state_succ_of_pause (h : r.action t = none) : r.state (t + 1) = r.state t := by
  simpa [h, Machine.turn, eq_comm] using r.next t

lemma call?_zero (who : Caller) : (r.state 0).call? who = none := by
  obtain ⟨files, registry, workshop, h⟩ := r.fresh
  rw [h, Machine.call?_fresh]

theorem tidy : (r.state t).Tidy := by
  induction t with
  | zero =>
    obtain ⟨files, registry, workshop, h⟩ := r.fresh
    exact h ▸ Machine.tidy_fresh files registry workshop
  | succ t ih =>
    cases ha : r.action t with
    | none => rwa [r.state_succ_of_pause t ha]
    | some a => exact ih.act (r.act_eq t ha)

/-- A turn is a move of the call of the one who takes it, or leaves the cache as it is. -/
theorem moves_or_rests :
    (∃ who q s o, r.action t = some (.advance who) ∧
      (r.state t).Moves (r.state (t + 1)) who q s o) ∨
    (∀ who, r.action t ≠ some (.advance who)) ∧ (r.state t).Rests (r.state (t + 1)) := by
  cases ha : r.action t with
  | none =>
    refine .inr ⟨by simp, ?_⟩
    rw [r.state_succ_of_pause t ha]
    exact ⟨rfl, fun w => .inl rfl, .inl rfl⟩
  | some a =>
    by_cases hadv : ∃ who, a = .advance who
    · obtain ⟨who, rfl⟩ := hadv
      obtain ⟨q, s, o, h⟩ := Machine.moves_of_advance (r.act_eq t ha)
      exact .inl ⟨who, q, s, o, rfl, h⟩
    · refine .inr ⟨by simpa using hadv, (r.tidy t).rests_of_act (r.act_eq t ha) ?_⟩
      simpa using hadv

end Run

/-! Finite runs. -/

lemma Machine.run_append (m : Machine) (as bs : List Action) :
    m.run (as ++ bs) = (m.run as).bind (·.run bs) := by
  induction as generalizing m with
  | nil => rfl
  | cons a as ih =>
    simp only [List.cons_append, Machine.run]
    cases m.act a with
    | none => rfl
    | some m' => exact ih m'

/-- Actions that can be taken one after the other make a run, which pauses for ever after them. -/
def Run.ofActions (m : Machine) (as : List Action)
    (hm : ∃ files registry workshop, m = .fresh files registry workshop)
    (h : (m.run as).isSome) : Run where
  state t := (m.run (as.take t)).getD m
  action t := as[t]?
  fresh := hm
  next t := by
    obtain ⟨m', hm'⟩ : ∃ m', m.run (as.take t) = some m' := by
      rw [← List.take_append_drop t as, Machine.run_append] at h
      cases hrun : m.run (as.take t) with
      | none => simp [hrun] at h
      | some m' => exact ⟨m', rfl⟩
    rw [← List.take_append_drop (t + 1) as, Machine.run_append] at h
    by_cases ht : t < as.length
    · have hnext : m.run (as.take (t + 1)) = m'.act as[t] := by
        rw [List.take_succ_eq_append_getElem ht, Machine.run_append, hm']
        simp [Machine.run]
      rw [hnext] at h ⊢
      rw [hm', List.getElem?_eq_getElem ht]
      cases hact : m'.act as[t] with
      | none => simp [hact] at h
      | some m'' => simp [Machine.turn, hact]
    · have hle := Nat.le_of_not_lt ht
      simp [List.take_of_length_le hle, List.take_of_length_le (Nat.le_succ_of_le hle),
        Machine.turn, hle]

lemma Run.ofActions_state {m : Machine} {as : List Action}
    (hm : ∃ files registry workshop, m = .fresh files registry workshop)
    (h : (m.run as).isSome) {t : ℕ} (ht : as.length ≤ t) :
    (ofActions m as hm h).state t = (m.run as).getD m := by
  simp [ofActions, List.take_of_length_le ht]

/-- A machine with one source, and a toolchain that makes an empty module of it. -/
def Machine.blank : Machine :=
  fresh .empty ⟨({} : Table Source).insert "/a" ⟨"/a", .memory ""⟩⟩
    { ns := ""
      tools :=
        { translate := fun _ _ => .ok ""
          compile := fun module _ => .ok ⟨module, []⟩
          load := fun h i =>
            .ok ({ name := i.module, baseType := "", imports := [], nodes := [] }, h) } }

lemma Machine.exists_blank_eq_fresh :
    ∃ files registry workshop, blank = .fresh files registry workshop := ⟨_, _, _, rfl⟩

/-- A view is looked up on it, and invalidated then. -/
def Run.invalidatedOnce : Run :=
  .ofActions .blank (.call [.lookup "/a", .invalidate "/a"] :: List.replicate 14 (.advance 1))
    Machine.exists_blank_eq_fresh rfl

end CompiledViews
