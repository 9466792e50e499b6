import CompiledViews.Proofs.Cache.Accounts
import CompiledViews.Proofs.Cache.Mirrors

/-!
The run of the calls on one key. What all calls on other keys do can be deleted from a run of
lookups, invalidations and gets, and the calls on the key cannot tell.
-/

namespace CompiledViews

/-- Whether an action is an edit, a step, or a call that looks up, invalidates or gets views. -/
def Action.isPlain : Action → Bool
  | .call requests => requests.all (·.isPlain)
  | .advance _ | .edit _ => true
  | .notify _ | .receive | .drain => false

namespace Run

/-- A run in which nobody does anything but look views up, invalidate them or get them. -/
def Plain (r : Run) : Prop := ∀ t x, r.action t = some x → x.isPlain

/-- What is left of the action of a turn when all that calls on other keys do is deleted. -/
def actionOn (r : Run) (k : String) (t : ℕ) : Option Action :=
  match r.action t with
  | some (.call requests) => some (.call (requests.filter (·.isOn k)))
  | some (.advance who) =>
    if ((r.state t).call? who).any (·.1.isOn k) then some (.advance who) else none
  | x => x

/-- The states that are come to by what is left of the actions. -/
def stateOn (r : Run) (k : String) : ℕ → Machine
  | 0 => r.state 0
  | t + 1 => ((r.stateOn k t).turn (r.actionOn k t)).getD (r.stateOn k t)

variable {r : Run} {k key : String} {t b e : ℕ} {who : Caller} {q : Request} {s s' : Stage}
  {m' : Machine}

/-- At first there is the client of the loop alone, and it has nothing to do. -/
lemma eq_of_client_zero (r : Run) {cl : Client} (hcl : (r.state 0).clients[who]? = some cl) :
    cl = { todo := [] } := by
  obtain ⟨files, registry, workshop, h⟩ := r.fresh
  rw [h] at hcl
  simpa [Machine.fresh] using List.mem_of_getElem? hcl

/-- Calls of a plain run are plain. -/
lemma Plain.request (hr : r.Plain) {cl : Client} (hcl : (r.state t).clients[who]? = some cl) :
    ∀ q ∈ cl.todo, q.isPlain := by
  induction t generalizing who cl with
  | zero =>
    obtain rfl := r.eq_of_client_zero hcl
    simp
  | succ t ih =>
    cases ha : r.action t with
    | none => exact ih (by rwa [r.state_succ_of_pause t ha] at hcl)
    | some x =>
      have hx := hr t x ha
      have hact := r.act_eq t ha
      cases x with
      | notify | receive | drain => cases hx
      | edit files =>
        rw [← Option.some.inj hact] at hcl
        exact ih hcl
      | call requests =>
        rw [← Option.some.inj hact] at hcl
        rcases Machine.getElem?_call hcl with hcl | ⟨-, rfl⟩
        · exact ih hcl
        · exact List.all_eq_true.mp hx
      | advance w =>
        obtain ⟨cl₀, cl₁, c₁, hcl₀, hadv, hstate⟩ := Machine.act_advance_eq_some hact
        obtain ⟨q, rest, htodo, hcases⟩ := Client.advance_eq_some hadv
        rw [hstate, List.getElem?_set] at hcl
        by_cases hw : w = who
        · rw [if_pos hw] at hcl
          split at hcl <;> cases hcl
          have hplain := ih hcl₀
          rcases hcases with ⟨s₁, -, rfl⟩ | ⟨a, -, rfl⟩
          · exact hplain
          · exact fun q hq => hplain q (htodo ▸ List.mem_cons_of_mem _ hq)
        · rw [if_neg hw] at hcl
          exact ih hcl

lemma Plain.call (hr : r.Plain) (hcall : (r.state t).call? who = some (q, s)) : q.isPlain := by
  obtain ⟨cl, rest, hcl, htodo, -⟩ := Machine.call?_eq_some_iff.mp hcall
  exact hr.request hcl q (by simp [htodo])

/-- A workshop that is impartial at first is so at any time. -/
lemma impartial (h : (r.state 0).cache.workshop.Impartial) (t : ℕ) :
    (r.state t).cache.workshop.Impartial := by
  induction t with
  | zero => exact h
  | succ t ih =>
    rcases r.moves_or_rests t with ⟨w, q, s, o, -, hmoves⟩ | ⟨-, hrests⟩
    · obtain ⟨begun, host, hsame⟩ := hmoves.move.workshop_eq
      rw [hmoves.cache, hsame]
      exact ih
    · rwa [hrests.cache]

lemma extends_succ (hcall : (r.state t).call? who = some (q, s))
    (ha : r.action t = some (.advance who)) :
    (r.state t).cache.Extends (r.state (t + 1)).cache := by
  have hmoves := moves_of_call? hcall ha
  rw [hmoves.cache]
  refine hmoves.move.extends ?_
  rintro v key rfl hkey
  exact (r.coherent t).absent who q _ key hcall rfl hkey

/-- The same comes of a step in a machine where there are the calls on the key alone. -/
theorem outcome_mirrors (hr : r.Plain) (hw : (r.state 0).cache.workshop.Impartial)
    (hm : (r.state t).Mirrors k m') (hcall : (r.state t).call? who = some (q, s))
    (ha : r.action t = some (.advance who)) (hon : q.isOn k)
    (hs : s.Mirrors (r.state t).cache k s') :
    (r.outcomeAt who q s t).Mirrors k (m'.cache.step m'.files who q s') ∧
      (r.state t).cache.counts.GainAlike (r.state (t + 1)).cache.counts m'.cache.counts
        ((m'.cache.step m'.files who q s').cache m'.cache).counts := by
  have hmoves := moves_of_call? hcall ha
  have habsent : ∀ v key, s = .storing v → q.key? = some key →
      (r.state t).cache.entry? key = none := by
    rintro v key rfl hkey
    exact (r.coherent t).absent who q _ key hcall rfl hkey
  obtain ⟨o', hmove', ho, hgain⟩ := hm.cache.step (r.impartial hw t) (r.placed t) hmoves.move hon
    (hr.call hcall) hs habsent
  rw [hm.files, hmove'.step_eq, hmoves.cache]
  exact ⟨ho, hgain⟩

/-- What is left of an action can be taken where the other calls have been left out before. -/
theorem turn_mirrors (hr : r.Plain) (hw : (r.state 0).cache.workshop.Impartial)
    (hm : (r.state t).Mirrors k m') :
    ∃ m₁', m'.turn (r.actionOn k t) = some m₁' ∧ (r.state (t + 1)).Mirrors k m₁' := by
  cases ha : r.action t with
  | none =>
    refine ⟨m', by simp [actionOn, ha, Machine.turn], ?_⟩
    rwa [r.state_succ_of_pause t ha]
  | some x =>
    have hact := r.act_eq t ha
    cases x with
    | notify | receive | drain => cases hr t _ ha
    | edit files =>
      rw [← Option.some.inj hact]
      exact ⟨{ m' with files := files }, by simp [actionOn, ha, Machine.turn, Machine.act],
        { hm with files := rfl }⟩
    | call requests =>
      rw [← Option.some.inj hact]
      exact ⟨_, by simp [actionOn, ha, Machine.turn, Machine.act], hm.call requests⟩
    | advance who =>
      obtain ⟨q, s, o, hmoves⟩ := Machine.moves_of_advance hact
      have hext := extends_succ hmoves.call ha
      by_cases hon : q.isOn k
      · obtain ⟨s', hcall', hs⟩ := hm.exists_call? hmoves.call hon
        obtain ⟨ho, -⟩ := outcome_mirrors hr hw hm hmoves.call ha hon hs
        obtain ⟨m₁', hact', hm₁⟩ := hm.advance hact hmoves.call hon hext hcall' ho
        exact ⟨m₁', by simpa [actionOn, ha, Machine.turn, hmoves.call, hon] using hact', hm₁⟩
      · have hclear : q ≠ .clear := by
          rintro rfl
          cases hr.call hmoves.call
        have hagrees := agrees_succ ha hmoves.call (mt Request.isOn_iff.mpr hon) hclear
        refine ⟨m', by simp [actionOn, ha, Machine.turn, hmoves.call, hon],
          hm.advance_elsewhere hact hmoves.call hon hext ?_⟩
        refine hm.cache.of_agrees hagrees hext (r.placed t) ?_ ?_
        · rw [hmoves.cache, hmoves.move.registry_eq]
        · rw [hmoves.cache]
          exact hmoves.move.workshop_eq

/-- At first there is nothing that could be left out. -/
lemma mirrors_zero (r : Run) (k : String) : (r.state 0).Mirrors k (r.state 0) := by
  have hcache : (r.state 0).cache.Mirrors k (r.state 0).cache := by
    obtain ⟨files, registry, workshop, h⟩ := r.fresh
    rw [h]
    exact ⟨rfl, ⟨workshop.begun, workshop.host, rfl⟩, rfl, rfl, rfl⟩
  refine ⟨rfl, hcache, rfl, fun who cl cl' hcl hcl' => ?_⟩
  obtain rfl := r.eq_of_client_zero hcl
  obtain rfl := r.eq_of_client_zero hcl'
  exact .of_start rfl rfl rfl

theorem mirrors_stateOn (hr : r.Plain) (hw : (r.state 0).cache.workshop.Impartial) (k : String)
    (t : ℕ) : (r.state t).Mirrors k (r.stateOn k t) := by
  induction t with
  | zero => exact r.mirrors_zero k
  | succ t ih =>
    obtain ⟨m₁', hturn, hm₁⟩ := turn_mirrors hr hw ih
    rwa [stateOn, hturn, Option.getD_some]

/-- The run from which all steps of calls on other keys are deleted. -/
def only (r : Run) (k : String) (hr : r.Plain) (hw : (r.state 0).cache.workshop.Impartial) :
    Run where
  state := r.stateOn k
  action := r.actionOn k
  fresh := r.fresh
  next t := by
    obtain ⟨m₁', hturn, -⟩ := turn_mirrors hr hw (mirrors_stateOn hr hw k t)
    rw [stateOn, hturn, Option.getD_some]

lemma actionOn_eq_advance_iff : r.actionOn k t = some (.advance who) ↔
    r.action t = some (.advance who) ∧ ∃ q s, (r.state t).call? who = some (q, s) ∧ q.isOn k := by
  unfold actionOn
  split
  case h_1 ha => simp [ha]
  case h_2 w ha =>
    cases hcall : (r.state t).call? w with
    | none =>
      simp only [ha, Option.any_none, Bool.false_eq_true, if_false, Option.some.injEq,
        Action.advance.injEq, reduceCtorEq, false_iff, not_and]
      rintro rfl
      simp [hcall]
    | some call =>
      obtain ⟨q, s⟩ := call
      by_cases hon : q.isOn k
      · simp only [ha, Option.any_some, hon, if_true, Option.some.injEq, Action.advance.injEq,
          iff_self_and]
        rintro rfl
        exact ⟨q, s, hcall, hon⟩
      · simp only [ha, Option.any_some, hon, if_false, Option.some.injEq,
          Action.advance.injEq, reduceCtorEq, false_iff, not_and]
        rintro rfl
        simp [hcall, hon]
  case h_3 hcall hadvance => simpa using fun ha => absurd ha (hadvance who)

section Only

variable (hr : r.Plain) (hw : (r.state 0).cache.workshop.Impartial)
include hr hw

/-- A call on the key is at the same stage at any time. -/
lemma Reaches.exists_only (h : r.Reaches who q b t s) (hon : q.isOn k) :
    ∃ s', (r.only k hr hw).Reaches who q b t s' ∧ s.Mirrors (r.state t).cache k s' := by
  have hsame : ∀ {t s s'}, r.Reaches who q b t s → (r.only k hr hw).Reaches who q b t s' →
      s.Mirrors (r.state t).cache k s' := by
    intro t s s' h h'
    obtain ⟨s'', hcall', hs⟩ := (mirrors_stateOn hr hw k t).exists_call? h.call? hon
    obtain ⟨-, rfl⟩ := Machine.call?_unique h'.call? hcall'
    exact hs
  suffices hreach : ∃ s', (r.only k hr hw).Reaches who q b t s' by
    obtain ⟨s', h'⟩ := hreach
    exact ⟨s', h', hsame h h'⟩
  induction h with
  | begins ha hcall =>
    obtain ⟨s', hcall', hs⟩ := (mirrors_stateOn hr hw k b).exists_call? hcall hon
    cases hs
    exact ⟨_, .begins (actionOn_eq_advance_iff.mpr ⟨ha, q, _, hcall, hon⟩) hcall'⟩
  | waits h hne ih =>
    obtain ⟨s', h'⟩ := ih
    exact ⟨s', h'.waits fun ha => hne (actionOn_eq_advance_iff.mp ha).1⟩
  | @goes t s s₁ c h ha ho ih =>
    obtain ⟨s', h'⟩ := ih
    have hmirrors := mirrors_stateOn hr hw k t
    obtain ⟨houtcome, -⟩ := outcome_mirrors hr hw hmirrors h.call? ha hon (hsame h h')
    rw [ho] at houtcome
    generalize hstep' : ((r.stateOn k t).cache.step (r.stateOn k t).files who q s') = o'
      at houtcome
    cases houtcome with
    | going hcache hstage =>
      exact ⟨_, h'.goes (actionOn_eq_advance_iff.mpr ⟨ha, q, _, h.call?, hon⟩) hstep'⟩

/-- What the call in the one run is at, the call in the other has come to. -/
lemma Reaches.exists_of_only {s' : Stage} (h : (r.only k hr hw).Reaches who q b t s')
    (hon : q.isOn k) : ∃ s, r.Reaches who q b t s := by
  induction h with
  | begins ha hcall =>
    obtain ⟨ha, q₀, s₀, hcall₀, hon₀⟩ := actionOn_eq_advance_iff.mp ha
    obtain ⟨s₀', hcall', hs⟩ := (mirrors_stateOn hr hw k b).exists_call? hcall₀ hon₀
    obtain ⟨rfl, rfl⟩ := Machine.call?_unique hcall hcall'
    cases hs
    exact ⟨_, .begins ha hcall₀⟩
  | waits h hne ih =>
    obtain ⟨s, hreach⟩ := ih
    refine ⟨s, hreach.waits fun ha => hne ?_⟩
    exact actionOn_eq_advance_iff.mpr ⟨ha, q, s, hreach.call?, hon⟩
  | @goes t s' s₁' c' h ha ho ih =>
    obtain ⟨s, hreach⟩ := ih
    obtain ⟨ha, -⟩ := actionOn_eq_advance_iff.mp ha
    have hmirrors := mirrors_stateOn hr hw k t
    obtain ⟨s'', hcall', hs⟩ := hmirrors.exists_call? hreach.call? hon
    obtain ⟨-, rfl⟩ := Machine.call?_unique h.call? hcall'
    obtain ⟨houtcome, -⟩ := outcome_mirrors hr hw hmirrors hreach.call? ha hon hs
    have hstep' : (r.stateOn k t).cache.step (r.stateOn k t).files who q s' = _ := ho
    rw [hstep'] at houtcome
    generalize hstep : r.outcomeAt who q s t = o at houtcome
    cases houtcome with
    | going hcache hstage => exact ⟨_, hreach.goes ha hstep⟩

/-- A step on the key is taken in both runs, the same comes of it, and the same is counted. -/
lemma Steps.exists_only (h : r.Steps who q b t s) (hon : q.isOn k) :
    ∃ s', (r.only k hr hw).Steps who q b t s' ∧
      (r.outcomeAt who q s t).Mirrors k ((r.only k hr hw).outcomeAt who q s' t) ∧
      (r.state t).cache.counts.GainAlike (r.state (t + 1)).cache.counts
        ((r.only k hr hw).state t).cache.counts ((r.only k hr hw).state (t + 1)).cache.counts := by
  obtain ⟨s', h', hs⟩ := h.1.exists_only hr hw hon
  have hsteps : (r.only k hr hw).Steps who q b t s' :=
    ⟨h', actionOn_eq_advance_iff.mpr ⟨h.2, q, s, h.1.call?, hon⟩⟩
  obtain ⟨ho, hgain⟩ :=
    outcome_mirrors hr hw (mirrors_stateOn hr hw k t) h.1.call? h.2 hon hs
  refine ⟨s', hsteps, ho, ?_⟩
  rw [hsteps.moves.cache]
  exact hgain

/-- A call on the key returns the same in both runs. -/
lemma Returns.exists_only {a : Answer} (h : r.Returns who q b e a) (hon : q.isOn k) :
    ∃ a', (r.only k hr hw).Returns who q b e a' ∧ a.Mirrors (r.state (e + 1)).cache k a' := by
  obtain ⟨s, c, hsteps, ho⟩ := h
  obtain ⟨s', hsteps', houtcome, -⟩ := hsteps.exists_only hr hw hon
  have hcache := hsteps.moves.cache
  rw [ho] at houtcome hcache
  generalize hstep' : (r.only k hr hw).outcomeAt who q s' e = o' at houtcome
  cases houtcome with
  | finished _ ha =>
    rw [hcache]
    exact ⟨_, ⟨s', _, hsteps', hstep'⟩, ha⟩

lemma Returns.exists_of_only {a' : Answer} (h : (r.only k hr hw).Returns who q b e a')
    (hon : q.isOn k) : ∃ a, r.Returns who q b e a := by
  obtain ⟨s', c', hsteps', ho'⟩ := h
  obtain ⟨s, hreach⟩ := hsteps'.1.exists_of_only hr hw hon
  have hsteps : r.Steps who q b e s := ⟨hreach, (actionOn_eq_advance_iff.mp hsteps'.2).1⟩
  obtain ⟨s'', hsteps'', houtcome, -⟩ := hsteps.exists_only hr hw hon
  obtain rfl := hsteps'.stage_unique hsteps''
  rw [ho'] at houtcome
  generalize hstep : r.outcomeAt who q s e = o at houtcome
  cases houtcome with
  | finished => exact ⟨_, s, _, hsteps, hstep⟩

end Only

/-- Keys that have an entry or a slot are registered and canonical, and the view under a key reports
the key. A step of a call on another key, short of a clear, leaves the entry, the slot and the views
of a key as they are. In a run of lookups, invalidations and gets, all steps of calls on other keys
may be deleted: the calls on the key begin, go on and return in the same turns, come to the same
stages and answers, and count the same hits, misses and compilations, and at any time the key has
the same entry, the same slot and the same views, released or not. Views are numbered without those
of other keys then, and modules have other names. -/
theorem keys_kept_apart (r : Run) :
    (∀ t key, (r.entryAt key t).isSome ∨ (r.state t).cache.slots.contains key →
      (r.state t).cache.registry.contains key ∧ Path.normalizeLogical key = key) ∧
    (∀ t key id, r.entryAt key t = some id →
      ∃ v, (r.state t).cache.views[id]? = some v ∧ v.path = key) ∧
    (∀ t who q s k, r.action t = some (.advance who) → (r.state t).call? who = some (q, s) →
      q.subject? ≠ some k → q ≠ .clear →
      (r.state t).cache.Agrees k (r.state (t + 1)).cache) ∧
    (r.Plain → (r.state 0).cache.workshop.Impartial → ∀ k, ∃ r' : Run,
      r'.state 0 = r.state 0 ∧ (∀ t, r'.action t = r.actionOn k t) ∧
      (∀ t, (r.state t).cache.Mirrors k (r'.state t).cache) ∧
      (∀ who q b t, q.isOn k →
        (∀ s, r.Reaches who q b t s →
          ∃ s', r'.Reaches who q b t s' ∧ s.Mirrors (r.state t).cache k s') ∧
        ∀ s', r'.Reaches who q b t s' →
          ∃ s, r.Reaches who q b t s ∧ s.Mirrors (r.state t).cache k s') ∧
      (∀ who q b e, q.isOn k →
        (∀ a, r.Returns who q b e a →
          ∃ a', r'.Returns who q b e a' ∧ a.Mirrors (r.state (e + 1)).cache k a') ∧
        ∀ a', r'.Returns who q b e a' →
          ∃ a, r.Returns who q b e a ∧ a.Mirrors (r.state (e + 1)).cache k a') ∧
      (∀ t id v, (r.state t).cache.views[id]? = some v → v.path = k →
        (∃ v', (r'.state t).cache.views[(r.state t).cache.numberOf k id]? = some v' ∧
          v'.nameless = v.nameless) ∧
        ∀ id', id < id' → (r.state t).cache.numberOf k id < (r.state t).cache.numberOf k id') ∧
      ∀ who q b t s, q.isOn k → r.Steps who q b t s →
        (r.state t).cache.counts.GainAlike (r.state (t + 1)).cache.counts
          (r'.state t).cache.counts (r'.state (t + 1)).cache.counts) := by
  refine ⟨fun t key hkey => ?_, r.placed, fun t who q s k ha hcall hq hclear =>
    agrees_succ ha hcall hq hclear, fun hr hw k => ⟨r.only k hr hw, rfl, fun _ => rfl, ?_⟩⟩
  · rcases hkey with hentry | hslot
    · obtain ⟨id, he⟩ := Option.isSome_iff_exists.mp hentry
      exact ⟨(r.coherent t).sound.known key id he, canonical_of_entryAt he⟩
    · exact known_of_slot hslot
  have hmirrors := mirrors_stateOn hr hw k
  refine ⟨fun t => (hmirrors t).cache,
    fun who q b t hon => ⟨fun s h => h.exists_only hr hw hon, fun s' h' => ?_⟩,
    fun who q b e hon => ⟨fun a h => h.exists_only hr hw hon, fun a' h' => ?_⟩,
    fun t id v hv hpath => ⟨(hmirrors t).cache.exists_view hv hpath,
      fun id' hlt => Cache.Mirrors.numberOf_lt hv hpath hlt⟩,
    fun who q b t s hon h => ?_⟩
  · obtain ⟨s, h⟩ := h'.exists_of_only hr hw hon
    obtain ⟨s'', h'', hs⟩ := h.exists_only hr hw hon
    obtain ⟨-, rfl⟩ := Machine.call?_unique h'.call? h''.call?
    exact ⟨s, h, hs⟩
  · obtain ⟨a, h⟩ := h'.exists_of_only hr hw hon
    obtain ⟨a'', h'', ha⟩ := h.exists_only hr hw hon
    obtain ⟨-, rfl⟩ := h'.unique h''
    exact ⟨a, h, ha⟩
  · obtain ⟨s', -, -, hgain⟩ := h.exists_only hr hw hon
    exact hgain

/-- Two keys are looked up at a time, each in the steps between those of the other. -/
def interleavedLookups : List Action :=
  [.call [.lookup "/b"], .call [.lookup "a"]] ++
    (List.replicate 7 [Action.advance 1, .advance 2]).flatten

/-- A machine with two templates. -/
def twoPages : Machine :=
  .fresh .empty
    ⟨(({} : Table Source).insert "/a" ⟨"/a", .memory "x"⟩).insert "/b" ⟨"/b", .memory "y"⟩⟩
    { ns := "N"
      tools := .standard ⟨"N", "B", []⟩ []
      nameOf := fun n => .ofList (.replicate n 'V') }

/-- Its options declare no name, and its names stand on one line. -/
lemma impartial_twoPages : twoPages.cache.workshop.Impartial := by
  refine Workshop.impartial_standard (g := ⟨"N", "B", []⟩) rfl fun n => ?_
  have hname : Text.Inline (String.ofList (List.replicate (n + 1) 'V')) :=
    .of_no_blank (by simp) (by simp [Text.isBlank])
  exact ⟨hname, fun h => absurd h (by decide), fun h => absurd h (by decide)⟩

/-- The view with which a lookup is about to leave. -/
def leavingWith? (m : Machine) (who : Caller) : Option (String × ℕ) :=
  (m.call? who).bind fun
    | (.lookup path, .leaving (.view id)) => some (path, id)
    | _ => none

lemma call?_of_leavingWith? {m : Machine} {path : String} {id : ℕ}
    (h : leavingWith? m who = some (path, id)) :
    m.call? who = some (.lookup path, .leaving (.view id)) := by
  obtain ⟨⟨q, s⟩, hcall, hmatch⟩ := Option.bind_eq_some_iff.mp h
  split at hmatch
  case h_1 heq =>
    cases heq
    cases hmatch
    exact hcall
  case h_2 => cases hmatch

lemma evaluate_interleavedLookups :
    ((twoPages.run (interleavedLookups.take 15)).bind fun m => (m.act (.advance 2)).map fun m' =>
      (leavingWith? m 2, m'.cache.numberOf "/a" 1)) = some (some ("a", 1), 0) := by
  decide +kernel

/-- The lookup of `/a` leaves with the second view that was made, which is the first one of `/a`. -/
lemma run_interleavedLookups : ∃ m m', twoPages.run (interleavedLookups.take 15) = some m ∧
    twoPages.run interleavedLookups = some m' ∧
    m.call? 2 = some (.lookup "a", .leaving (.view 1)) ∧ m'.cache.numberOf "/a" 1 = 0 := by
  obtain ⟨m, hrun, h⟩ := Option.bind_eq_some_iff.mp evaluate_interleavedLookups
  obtain ⟨m', hact, heq⟩ := Option.map_eq_some_iff.mp h
  obtain ⟨hleaving, hnumber⟩ := Prod.mk.inj heq
  refine ⟨m, m', hrun, ?_, call?_of_leavingWith? hleaving, hnumber⟩
  have hsplit : interleavedLookups = interleavedLookups.take 15 ++ [.advance 2] := rfl
  rw [hsplit, Machine.run_append, hrun]
  simp [Machine.run, hact]

lemma isSome_run_interleavedLookups : (twoPages.run interleavedLookups).isSome := by
  obtain ⟨m, m', -, hrun, -⟩ := run_interleavedLookups
  exact Option.isSome_of_eq_some hrun

def interleaved : Run :=
  .ofActions twoPages interleavedLookups ⟨_, _, _, rfl⟩ isSome_run_interleavedLookups

lemma plain_interleaved : interleaved.Plain := by
  have hall : interleavedLookups.all (·.isPlain) := rfl
  exact fun t x hx => List.all_eq_true.mp hall x (List.mem_of_getElem? hx)

lemma call?_interleaved :
    (interleaved.state 15).call? 2 = some (.lookup "a", .leaving (.view 1)) := by
  obtain ⟨m, m', hrun, -, hcall, -⟩ := run_interleavedLookups
  have hstate : interleaved.state 15 = m := by simp [interleaved, ofActions, hrun]
  rw [hstate, hcall]

lemma numberOf_interleaved : (interleaved.state 16).cache.numberOf "/a" 1 = 0 := by
  obtain ⟨m, m', -, hrun, -, hnumber⟩ := run_interleavedLookups
  have hstate : interleaved.state 16 = (twoPages.run interleavedLookups).getD twoPages :=
    ofActions_state _ _ (le_refl 16)
  rw [hstate, hrun, Option.getD_some, hnumber]

/-- Two lookups that go on in turns. Without those of `/b`, the view of `/a` is the first one. -/
theorem keys_kept_apart_interleaved : interleaved.Plain ∧
    (interleaved.state 0).cache.workshop.Impartial ∧
    ∃ r' : Run, (∀ t, r'.action t = interleaved.actionOn "/a" t) ∧
      ∃ b, interleaved.Returns 2 (.lookup "a") b 15 (.view 1) ∧
        r'.Returns 2 (.lookup "a") b 15 (.view 0) := by
  obtain ⟨-, -, -, hruns⟩ := keys_kept_apart interleaved
  obtain ⟨r', -, haction, -, -, hreturns, -⟩ := hruns plain_interleaved impartial_twoPages "/a"
  obtain ⟨b, hreach⟩ := exists_reaches (by simp) call?_interleaved
  have hreturn : interleaved.Returns 2 (.lookup "a") b 15 (.view 1) :=
    ⟨_, _, ⟨hreach, rfl⟩, rfl⟩
  obtain ⟨a', hreturn', ha'⟩ := (hreturns 2 (.lookup "a") b 15 (by decide)).1 _ hreturn
  refine ⟨plain_interleaved, impartial_twoPages, r', haction, b, hreturn, ?_⟩
  cases ha'
  rw [numberOf_interleaved] at hreturn'
  exact hreturn'

end Run

end CompiledViews
