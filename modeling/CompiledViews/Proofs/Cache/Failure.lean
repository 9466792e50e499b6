import CompiledViews.Proofs.Cache.Notices
import CompiledViews.Proofs.Cache.Refusals
import CompiledViews.Proofs.Cache.Rendering

/-!
Compiles that fail. A call whose compile has failed has stored nothing and leaves its key without an
entry, and whoever comes to the slot next compiles the source anew, as it is then.
-/

namespace CompiledViews

/-- Whether an invalidation that has come to a stage has taken an entry out. -/
def Stage.evicted : Stage → Bool
  | .waiting evicted | .holding evicted => evicted
  | .opening | .making _ | .storing _ | .leaving (.error _) => true
  | .start | .leaving _ | .rendering _ => false

namespace Cache

variable {c : Cache} {t : FileTree} {who : Caller} {q : Request} {s : Stage} {o : Outcome}
  {key : String}

/-- A call leaves with an error when its compile has failed. -/
lemma Move.stage_eq_leaving_error {e : ViewError} (h : c.Move t who q s o)
    (ho : o.stage = .leaving (.error e)) : ∃ opened, s = .making opened := by
  cases h with
  | hit | leaves => exact absurd ho (stage_settle_ne rfl)
  | unopened | fails => exact ⟨_, rfl⟩
  | _ => simp at ho

/-- A call ends at its start, with the answer that it leaves with, or with a rendering. -/
lemma Move.finished_cases {a : Answer} {c' : Cache} (h : c.Move t who q s (.finished a c')) :
    s = .start ∨ s = .leaving a ∨ ∃ id, s = .rendering id := by
  generalize ho : Outcome.finished a c' = o at h
  cases h with
  | leaves =>
    unfold Request.settle at ho
    split at ho <;> cases ho
    exact .inr (.inl rfl)
  | renders => exact .inr (.inr ⟨_, rfl⟩)
  | hit | unknown | ask | evict | forget | ignore | gets | clears => exact .inl rfl
  | _ => cases ho

/-- An invalidation goes on to a compile when it has taken an entry out. -/
lemma Move.evicted_cases (h : c.Move t who q s o) (hq : q.invalidationKey? = some key)
    (ho : o.stage.evicted) :
    s.evicted ∨ ∃ id, c.entry? key = some id ∧ entry? (o.cache c) key = none := by
  have hkey : ∀ {key'}, q.invalidationKey? = some key' → key' = key :=
    fun hq' => Option.some.inj (hq'.symm.trans hq)
  cases h with
  | hit hq' | hitLate hq' | miss hq' | unknown hq' =>
    cases q <;> simp_all [Request.lookupKey?, Request.invalidationKey?]
  | evict hq' he | evictLate hq' he =>
    obtain rfl := hkey hq'
    exact .inr ⟨_, he, by simp [entry?_evict]⟩
  | leaves => cases q <;> simp_all [Request.settle, Request.invalidationKey?, Stage.evicted]
  | take => exact .inl ho
  | _ => first | exact .inl rfl | simp [Stage.evicted] at ho

end Cache

namespace Run

variable {r : Run} {who who' : Caller} {q : Request} {path key k : String} {b e n t u : ℕ}
  {s s' : Stage} {a : Answer} {id : ℕ} {v : View} {err : ViewError}

/-- A call comes to one stage at a time. -/
lemma Reaches.stage_unique (h : r.Reaches who q b t s) (h' : r.Reaches who q b t s') : s = s' := by
  simpa [h.call?] using h'.call?

/-- A call that is under way stays at its stage or comes nearer to its end. -/
theorem Reaches.stage_cases (h : r.Reaches who q b u s) (hs : s ≠ .start)
    (h' : r.Reaches who q b t s') (hut : u ≤ t) : s' = s ∨ s' ≠ .start ∧ s'.rank < s.rank := by
  induction h' with
  | begins ha hcall =>
    obtain rfl := Nat.le_antisymm hut h.le
    exact .inl ((Reaches.begins ha hcall).stage_unique h)
  | @waits t s' h' hne ih =>
    rcases Nat.le_succ_iff.mp hut with hut | rfl
    · exact ih hut
    · exact .inl ((h'.waits hne).stage_unique h)
  | @goes t s₀ s' c h₀ ha ho ih =>
    rcases Nat.le_succ_iff.mp hut with hut | rfl
    · have hmove := Steps.move (s := s₀) ⟨h₀, ha⟩
      rw [ho] at hmove
      refine .inr ⟨hmove.ne_start rfl, ?_⟩
      rcases ih hut with rfl | ⟨hs₀, hlt⟩
      · exact hmove.rank_lt hs
      · exact (hmove.rank_lt hs₀).trans hlt
    · exact .inl ((h₀.goes ha ho).stage_unique h)

/-- A call that has returned is at no stage any more. -/
lemma Returns.le_of_reaches (h : r.Returns who q b e a) (h' : r.Reaches who q b t s) : t ≤ e := by
  obtain ⟨s₀, c, hsteps, hfinished⟩ := h
  induction h' with
  | begins => exact hsteps.1.le
  | @waits t s _ hne ih =>
    refine Nat.succ_le_of_lt (Nat.lt_of_le_of_ne ih ?_)
    rintro rfl
    exact hne hsteps.2
  | @goes t s s' c' h ha ho ih =>
    refine Nat.succ_le_of_lt (Nat.lt_of_le_of_ne ih ?_)
    rintro rfl
    obtain rfl : s₀ = s := by simpa [h.call?] using hsteps.1.call?.symm
    rw [hfinished] at ho
    cases ho

/-- A key without an entry gets none in a turn in which nobody stores a view for it. -/
lemma entryAt_succ_eq_none (h : r.entryAt key t = none)
    (hno : ∀ w q v, (r.state t).call? w = some (q, .storing v) → q.key? = some key →
      r.action t ≠ some (.advance w)) : r.entryAt key (t + 1) = none := by
  cases he : r.entryAt key (t + 1) with
  | none => rfl
  | some id =>
    rcases r.moves_or_rests t with ⟨w, q, s, o, ha, hmoves⟩ | ⟨-, hrests⟩
    · rcases (r.coherent t).entry?_of_moves hmoves he with hold | ⟨v, rfl, hq, -⟩
      · exact absurd (h.symm.trans hold) (by simp)
      · exact absurd ha (hno w q v hmoves.call hq)
    · rw [entryAt, hrests.cache] at he
      exact absurd (h.symm.trans he) (by simp)

/-- While a slot is free nothing is stored for its key. -/
lemma entryAt_succ_of_free (h : r.entryAt key t = none)
    (hfree : (r.state t).cache.holder? key = none) : r.entryAt key (t + 1) = none := by
  refine entryAt_succ_eq_none h fun w q v hcall hq _ => ?_
  have hheld := ((r.coherent t).held key w).mpr ⟨q, _, hcall, rfl, hq⟩
  rw [hfree] at hheld
  cases hheld

/-- While a call has a slot nobody else stores a view for its key. -/
lemma entryAt_succ_of_holds (h : r.entryAt key t = none)
    (hcall : (r.state t).call? who = some (q, s)) (hq : q.key? = some key) (hs : s.holds)
    (hne : r.action t ≠ some (.advance who)) : r.entryAt key (t + 1) = none := by
  refine entryAt_succ_eq_none h fun w q' v hcall' hq' ha => ?_
  obtain rfl := (r.coherent t).holder_unique hcall' hcall rfl hs hq' hq
  exact hne ha

/-- A call whose compile has failed finds no entry under its key as long as it has the slot. -/
lemma Reaches.entryAt_of_failed (h : r.Reaches who q b t s) (hs : s = .leaving (.error err))
    (hq : q.key? = some key) : r.entryAt key t = none := by
  induction h with
  | begins => cases hs
  | waits h hne ih => exact entryAt_succ_of_holds (ih hs) h.call? hq (hs ▸ rfl) hne
  | @goes t s s' c h ha ho _ =>
    have hsteps : r.Steps who q b t s := ⟨h, ha⟩
    obtain ⟨opened, rfl⟩ := hsteps.move.stage_eq_leaving_error (by rw [ho, ← hs]; rfl)
    refine entryAt_succ_eq_none ((r.coherent t).absent who q _ key h.call? rfl hq) ?_
    intro w q' v hcall' hq' ha'
    obtain rfl : who = w := by simpa [ha] using ha'
    simp [h.call?] at hcall'

/-- A call that leaves with an error has failed to compile before. -/
lemma Reaches.exists_fails (h : r.Reaches who q b t (.leaving (.error err))) :
    ∃ f, f < t ∧ r.Fails who q b f err ∧ r.Reaches who q b (f + 1) (.leaving (.error err)) := by
  obtain ⟨f, s, hft, hsteps, hstage⟩ := h.exists_steps (by simp)
  obtain ⟨opened, rfl⟩ := hsteps.move.stage_eq_leaving_error hstage
  refine ⟨f, hft, ⟨opened, hsteps, hstage⟩, ?_⟩
  rcases hsteps.goes_or_returns with ⟨s', -, hreach, hs'⟩ | ⟨a, s₀, c, hsteps', ho⟩
  · rwa [← hstage, hs']
  · obtain rfl := hsteps.1.stage_unique hsteps'.1
    rw [ho] at hstage
    cases hstage

/-- A call that leaves with an error has stored nothing: it was to make a view at last, and then it
left. -/
lemma Reaches.not_stores_of_failed (h : r.Reaches who q b t (.leaving (.error err))) :
    ∀ u k v id, ¬ r.Stores who q b u k v id := by
  rintro u k v id ⟨⟨hstoring, -⟩, -⟩
  obtain ⟨f, -, ⟨opened, ⟨hmaking, -⟩, -⟩, hleaving⟩ := h.exists_fails
  rcases Nat.lt_or_ge f u with hlt | hle
  · rcases hleaving.stage_cases (by simp) hstoring hlt with hsame | ⟨-, hrank⟩
    · cases hsame
    · simp [Stage.rank] at hrank
  · rcases hstoring.stage_cases (by simp) hmaking hle with hsame | ⟨-, hrank⟩
    · cases hsame
    · simp [Stage.rank] at hrank

/-- A view that is released stays as it is. -/
lemma view_later (hv : (r.state u).cache.views[id]? = some v) (hreleased : v.released)
    (hut : u ≤ t) : (r.state t).cache.views[id]? = some v := by
  induction hut with
  | refl => exact hv
  | @step t _ ih =>
    rcases r.moves_or_rests t with ⟨w, q, s, o, -, hmoves⟩ | ⟨-, hrests⟩
    · have hsame : v.release = v := if_pos hreleased
      rcases (r.coherent t).views_of_moves hmoves ih with ⟨hkept, -⟩ | ⟨hkept, -⟩
      · exact hkept
      · rwa [hsame] at hkept
    · rwa [hrests.cache]

/-- A view whose entry has been taken out is released from then on. -/
lemma released_later (he : r.entryAt key u = some id) (hne : r.entryAt key (u + 1) ≠ some id)
    (hut : u < t) : ∃ w, (r.state t).cache.views[id]? = some w ∧ w.released := by
  obtain ⟨who, q, b, u₀, v, hstores, hu₀⟩ := exists_stores he
  rcases hstores.kept (Nat.lt_succ_of_lt hu₀) with ⟨hstill, -⟩ | ⟨-, hv⟩
  · exact absurd hstill hne
  · exact ⟨v.release, view_later hv v.released_release hut, v.released_release⟩

/-- An invalidation that has come to a compile has taken the entry of its key out. -/
lemma Reaches.exists_evicts (h : r.Reaches who (.invalidate path) b t s) (hs : s.evicted) :
    ∃ u s₀ id, u < t ∧ r.Steps who (.invalidate path) b u s₀ ∧
      r.entryAt (Path.normalizeLogical path) u = some id ∧
      r.entryAt (Path.normalizeLogical path) (u + 1) = none := by
  induction h with
  | begins => cases hs
  | waits _ _ ih =>
    obtain ⟨u, s₀, id, hut, hevicts⟩ := ih hs
    exact ⟨u, s₀, id, Nat.lt_succ_of_lt hut, hevicts⟩
  | @goes t s s' c h ha ho ih =>
    have hsteps : r.Steps who (.invalidate path) b t s := ⟨h, ha⟩
    have hevicted : (r.outcomeAt who (.invalidate path) s t).stage.evicted := by
      rw [ho]
      exact hs
    rcases hsteps.move.evicted_cases rfl hevicted with hs | ⟨id, he, hnone⟩
    · obtain ⟨u, s₀, id, hut, hevicts⟩ := ih hs
      exact ⟨u, s₀, id, Nat.lt_succ_of_lt hut, hevicts⟩
    · exact ⟨t, s, id, Nat.lt_succ_self t, hsteps, he, by rwa [entryAt, hsteps.moves.cache]⟩

/-- A call opens the source of a key in turn `o`, makes a view in turn `m` of what the source
yielded then, and answers with what comes of it. -/
structure AnswersAnew (r : Run) (who : Caller) (q : Request) (b : ℕ) (key : String) (o m : ℕ)
    (a : Answer) : Prop where
  opens : r.Steps who q b o .opening
  makes : r.Steps who q b m (.making (r.sourceAt key o))
  lt : o < m
  answer : match r.sourceAt key o with
    | .error err => a = .error err
    | .ok content => match ((r.state m).cache.make key content).1 with
      | .error err => a = .error err
      | .ok v => ∃ u id, r.Stores who q b u key v id ∧ a = .view id

/-- How far a call has come that took the slot of a key without an entry in turn `n`. -/
inductive Anew (r : Run) (who : Caller) (q : Request) (b : ℕ) (key : String) (n t : ℕ) :
    Stage → Prop
  | holding (evicted : Bool) : r.entryAt key t = none → Anew r who q b key n t (.holding evicted)
  | opening : n < t → Anew r who q b key n t .opening
  | making {o} : n < o → o < t → r.Steps who q b o .opening →
      Anew r who q b key n t (.making (r.sourceAt key o))
  | storing {o m content v} : n < o → o < m → r.Steps who q b o .opening →
      r.Steps who q b m (.making (r.sourceAt key o)) → r.sourceAt key o = .ok content →
      ((r.state m).cache.make key content).1 = .ok v → Anew r who q b key n t (.storing v)
  | leaving {o m a} : n < o → r.AnswersAnew who q b key o m a →
      Anew r who q b key n t (.leaving a)

namespace Anew

lemma waits (h : r.Anew who q b key n t s) (hq : q.key? = some key)
    (hreach : r.Reaches who q b t s) (hne : r.action t ≠ some (.advance who)) :
    r.Anew who q b key n (t + 1) s := by
  cases h with
  | holding e he => exact .holding e (entryAt_succ_of_holds he hreach.call? hq rfl hne)
  | opening hnt => exact .opening (Nat.lt_succ_of_lt hnt)
  | making hno hot hopens => exact .making hno (Nat.lt_succ_of_lt hot) hopens
  | storing hno hom hopens hmakes hsource hmade =>
    exact .storing hno hom hopens hmakes hsource hmade
  | leaving hno hanswers => exact .leaving hno hanswers

/-- A lookup that has taken the slot goes on with a compile, and leaves with what comes of it. -/
lemma goes {c : Cache} (h : r.Anew who (.lookup path) b (Path.normalizeLogical path) n t s)
    (hnt : n < t) (hsteps : r.Steps who (.lookup path) b t s)
    (ho : r.outcomeAt who (.lookup path) s t = .going s' c) :
    r.Anew who (.lookup path) b (Path.normalizeLogical path) n (t + 1) s' := by
  have hmove := hsteps.move
  rw [ho] at hmove
  cases h with
  | holding e he =>
    cases hmove with
    | hitLate hq he' =>
      cases hq
      exact absurd (he.symm.trans he') (by simp)
    | miss => exact .opening (Nat.lt_succ_of_lt hnt)
    | rebuilt hq | rebuild hq | evictLate hq | absent hq => cases hq
  | opening =>
    cases hmove with
    | opens hq =>
      cases hq
      exact .making hnt (Nat.lt_succ_self t) hsteps
  | @making o hno hot hopens =>
    generalize hsource : r.sourceAt (Path.normalizeLogical path) o = opened at hmove hsteps
    cases hmove with
    | unopened hq => exact .leaving hno ⟨hopens, hsource ▸ hsteps, hot, by rw [hsource]⟩
    | fails hq hmake =>
      cases hq
      exact .leaving hno ⟨hopens, hsource ▸ hsteps, hot, by simp only [hsource, hmake]⟩
    | makes hq hmake =>
      cases hq
      exact .storing hno hot hopens (hsource ▸ hsteps) hsource hmake
  | storing hno hom hopens hmakes hsource hmade =>
    cases hmove with
    | stores hq =>
      cases hq
      refine .leaving hno ⟨hopens, hmakes, hom, ?_⟩
      simp only [hsource, hmade]
      exact ⟨t, _, ⟨hsteps, rfl, rfl⟩, by rw [Cache.store_fst]⟩
  | leaving => cases hmove

/-- Whatever stage a lookup comes to that has taken the slot of a key without an entry. -/
theorem of_reaches {e : Bool} (htakes : r.Steps who (.lookup path) b n (.waiting e))
    (hnone : r.entryAt (Path.normalizeLogical path) n = none)
    (h : r.Reaches who (.lookup path) b t s) (hnt : n < t) :
    r.Anew who (.lookup path) b (Path.normalizeLogical path) n t s := by
  induction h with
  | begins => exact absurd htakes.1.le (Nat.not_le_of_lt hnt)
  | @waits t s h hne ih =>
    rcases Nat.lt_succ_iff_lt_or_eq.mp hnt with hnt | rfl
    · exact (ih hnt).waits rfl h hne
    · exact absurd htakes.2 hne
  | @goes t s s' c h ha ho ih =>
    rcases Nat.lt_succ_iff_lt_or_eq.mp hnt with hnt | rfl
    · exact (ih hnt).goes hnt ⟨h, ha⟩ ho
    · obtain rfl := htakes.1.stage_unique h
      have hmoves := htakes.moves
      rw [ho] at hmoves
      have hmove := hmoves.move
      cases hmove with
      | take hq hfree =>
        refine .holding e ?_
        rw [entryAt, hmoves.cache]
        exact hnone

end Anew

/-- A lookup that takes the slot of a key without an entry answers with what comes of a compile that
it begins after that. -/
theorem Returns.answersAnew {m : Bool} (h : r.Returns who (.lookup path) b e a)
    (htakes : r.Steps who (.lookup path) b n (.waiting m))
    (hnone : r.entryAt (Path.normalizeLogical path) n = none) :
    ∃ o m, n < o ∧ r.AnswersAnew who (.lookup path) b (Path.normalizeLogical path) o m a := by
  have hne := h.le_of_reaches htakes.1
  obtain ⟨s, c, hsteps, ho⟩ := h
  have hmove := hsteps.move
  rw [ho] at hmove
  have hlt : n < e := by
    refine Nat.lt_of_le_of_ne hne ?_
    rintro rfl
    obtain rfl := htakes.1.stage_unique hsteps.1
    cases hmove
  have hanew := Anew.of_reaches htakes hnone hsteps.1 hlt
  rcases hmove.finished_cases with rfl | rfl | ⟨id, rfl⟩
  · cases hanew
  · cases hanew with
    | leaving hno hanswers => exact ⟨_, _, hno, hanswers⟩
  · cases hanew

/-- A call that has come to a compile and returns an error leaves with it. -/
lemma Returns.leaving_of_opened {o : ℕ} (h : r.Returns who q b e (.error err))
    (hopens : r.Steps who q b o .opening) (hrender : q.isRender = false) :
    r.Steps who q b e (.leaving (.error err)) := by
  have hoe := h.le_of_reaches hopens.1
  obtain ⟨s, c, hsteps, ho⟩ := h
  have hmove := hsteps.move
  rw [ho] at hmove
  rcases hmove.finished_cases with rfl | rfl | ⟨id, rfl⟩
  · rcases hopens.1.stage_cases (by simp) hsteps.1 hoe with hsame | ⟨hne, -⟩
    · cases hsame
    · exact absurd rfl hne
  · exact hsteps
  · obtain ⟨path, model, rfl⟩ := hsteps.1.exists_render
    cases hrender

/-- A call that leaves has the slot of its key, and gives it back. -/
lemma Steps.holder_of_leaving (h : r.Steps who q b e (.leaving a)) (hq : q.key? = some key) :
    (r.state e).cache.holder? key = some who ∧ (r.state (e + 1)).cache.holder? key = none := by
  have hown := (r.coherent e).owns h.moves
  refine ⟨hown rfl key hq, ?_⟩
  have hgone : (r.outcomeAt who q (.leaving a) e).stage.holds = false := by
    have hmove := h.move
    generalize r.outcomeAt who q (.leaving a) e = o at hmove
    cases hmove with
    | leaves => exact Cache.holds_stage_settle _ _ _
  rw [h.moves.cache, h.move.holder?_eq hown]
  simp [hq, hgone]

/-- As long as a slot stays free, a key without an entry stays so. -/
lemma entryAt_later_of_free (h : r.entryAt key u = none) (hut : u ≤ t)
    (hfree : ∀ n, u ≤ n → n < t → (r.state n).cache.holder? key = none) :
    r.entryAt key t = none := by
  induction hut with
  | refl => exact h
  | @step t hut ih =>
    have hnone := ih fun n hun hnt => hfree n hun (Nat.lt_succ_of_lt hnt)
    exact entryAt_succ_of_free hnone (hfree t hut (Nat.lt_succ_self t))

/-- A call that has taken its slot returns at some time, if its caller does not stop for ever. -/
theorem WeaklyFair.exists_returns {m : Bool} (hfair : r.WeaklyFair (.advance who))
    (hq : q.key? = some key) (h : r.Steps who q b n (.waiting m)) :
    ∃ e a, r.Returns who q b e a := by
  rcases h.goes_or_returns with ⟨s, hs, hreach, rfl⟩ | ⟨a, hreturns⟩
  · have hlt := h.move.rank_lt (by simp)
    refine hreach.exists_returns hs fun u s' hreach' _ hle => ?_
    -- a call that has a slot does not wait for one again
    have hgone : ∀ m', s' ≠ .waiting m' := by
      rintro m' rfl
      exact absurd (Nat.lt_of_le_of_lt hle hlt) (Nat.lt_irrefl _)
    obtain ⟨v, -, hstill, ha⟩ := hfair.taken (P := fun u => r.Reaches who q b u s') hreach'
      (fun u hu => enabled_of_key? hu.call? hq fun m' hm' => absurd hm' (hgone m'))
      (fun u hu hne => hu.waits hne)
    exact ⟨v, hstill, ha⟩
  · exact ⟨n, a, hreturns⟩

/-- The call for `q` that `who` begins in turn `b` fails to compile the source of a key, returns the
error in turn `e`, and leaves nothing of the compile behind. -/
structure LeavesNothing (r : Run) (who : Caller) (q : Request) (b e : ℕ) (key : String)
    (err : ViewError) : Prop where
  fails : ∃ f, f < e ∧ r.Fails who q b f err
  stores_nothing : ∀ u k v id, ¬ r.Stores who q b u k v id
  /-- The slot is given back in the last turn. -/
  slot : (r.state e).cache.holder? key = some who ∧ (r.state (e + 1)).cache.holder? key = none
  no_entry : r.entryAt key e = none ∧ r.entryAt key (e + 1) = none
  others : ∀ u s k, r.Steps who q b u s → k ≠ key →
    (r.state u).cache.Agrees k (r.state (u + 1)).cache
  /-- The view of an entry that the call takes out is released. -/
  releases : ∀ u s id, r.Steps who q b u s → r.entryAt key u = some id →
    r.entryAt key (u + 1) ≠ some id → ∀ t, u < t →
    ∃ w, (r.state t).cache.views[id]? = some w ∧ w.released
  /-- An invalidation compiles only after it has taken an entry out. -/
  evicts : ∀ path, q = .invalidate path → ∃ u s id, u < e ∧ r.Steps who q b u s ∧
    r.entryAt key u = some id ∧ r.entryAt key (u + 1) = none
  /-- A lookup that takes the slot next compiles the source as it is then. -/
  next : ∀ who' path b' n evicted, Path.normalizeLogical path = key → e < n →
    r.Steps who' (.lookup path) b' n (.waiting evicted) →
    (∀ u, e < u → u < n → (r.state u).cache.holder? key = none) →
    (∀ e' a, r.Returns who' (.lookup path) b' e' a →
      ∃ o m, n < o ∧ r.AnswersAnew who' (.lookup path) b' key o m a) ∧
    (r.WeaklyFair (.advance who') → ∃ e' a, r.Returns who' (.lookup path) b' e' a)

/-- A lookup or an invalidation that returns an error from a compile has stored nothing. When it
gives back the slot, its key has no entry. What there is of other keys is as it was after each of
its steps. The view whose entry it has taken out is released; an invalidation has taken one out. A
lookup that takes the slot next opens the source anew and answers with what comes of that, and it
does return if its caller does not stop for ever. None of this depends on modules that refuse to be
released: if none did, the calls would take the same steps and return the same answers. -/
theorem failed_compile_leaves_nothing (r : Run) :
    (∀ path who q b e err, (q = .lookup path ∨ q = .invalidate path) →
      r.Returns who q b e (.error err) → (∃ o, r.Steps who q b o .opening) →
      r.LeavesNothing who q b e (Path.normalizeLogical path) err) ∧
    (r.Silent → ∃ r' : Run, r'.action = r.action ∧ (∀ t, r'.state t = (r.state t).willing) ∧
      (∀ (t id : ℕ) (v : View), (r'.state t).cache.views[id]? = some v →
        v.module.refusals = 0) ∧
      (∀ who q b t s, r.Steps who q b t s → r'.Steps who q b t s.willing) ∧
      ∀ who q b e a, r'.Returns who q b e a ↔ r.Returns who q b e a) := by
  refine ⟨fun path who q b e err hq hreturns ⟨o, hopens⟩ => ?_, fun hr => ?_⟩
  · have hkey : q.key? = some (Path.normalizeLogical path) := by rcases hq with rfl | rfl <;> rfl
    have hsubject : q.subject? = some (Path.normalizeLogical path) :=
      Request.subject?_of_key? hkey
    have hclear : q ≠ .clear := by rcases hq with rfl | rfl <;> simp
    have hrender : q.isRender = false := by rcases hq with rfl | rfl <;> rfl
    have hleaving := hreturns.leaving_of_opened hopens hrender
    obtain ⟨f, hfe, hfails, -⟩ := hleaving.1.exists_fails
    have hnone := hleaving.1.entryAt_of_failed rfl hkey
    have hnone' : r.entryAt (Path.normalizeLogical path) (e + 1) = none := by
      refine entryAt_succ_eq_none hnone fun w q' v hcall _ ha => ?_
      obtain rfl : who = w := by simpa [hleaving.2] using ha
      simp [hleaving.1.call?] at hcall
    refine
      { fails := ⟨f, hfe, hfails⟩
        stores_nothing := hleaving.1.not_stores_of_failed
        slot := hleaving.holder_of_leaving hkey
        no_entry := ⟨hnone, hnone'⟩
        others := fun u s k hsteps hk => ?others
        releases := fun u s id _ he hne t hut => released_later he hne hut
        evicts := ?evicts
        next := fun who' path' b' n evicted hpath hen htakes hslot => ?next }
    case others =>
      exact agrees_succ hsteps.2 hsteps.1.call? (by simpa [hsubject] using hk.symm) hclear
    case evicts =>
      rintro path' rfl
      have hsame : Path.normalizeLogical path' = Path.normalizeLogical path :=
        Option.some.inj hkey
      rw [← hsame]
      exact hleaving.1.exists_evicts rfl
    case next =>
      have hstill := entryAt_later_of_free hnone' hen hslot
      rw [← hpath] at hstill ⊢
      exact ⟨fun e' a h => h.answersAnew htakes hstill,
        fun hfair => hfair.exists_returns rfl htakes⟩
  · refine ⟨r.willing hr, rfl, fun _ => rfl, fun t id v hv => ?_,
      fun who q b t s h => ⟨h.1.willing hr, h.2⟩, fun who q b e a => returns_willing_iff hr⟩
    obtain ⟨w, -, rfl⟩ := Option.map_eq_some_iff.mp ((List.getElem?_map ..).symm.trans hv)
    rfl

/-- One source, of which the second compile breaks off. A module refuses the first request to
release it. -/
def reluctant : Machine :=
  .fresh .empty ⟨({} : Table Source).insert "/a" ⟨"/a", .memory ""⟩⟩
    { ns := ""
      tools :=
        { translate := fun module _ =>
            if module = "View_2" then .error (.brokenOff "cancelled") else .ok ""
          compile := fun module _ => .ok ⟨module, []⟩
          load := fun h i => .ok
            ({ name := i.module, baseType := "", imports := [], nodes := [], refusals := 1 }, h) } }

/-- A view is looked up, invalidated while its source cannot be compiled, and looked up again. -/
def recompileBrokenOff : Run :=
  .ofActions reluctant (.call [.lookup "/a", .invalidate "/a", .lookup "/a"] ::
    List.replicate 20 (.advance 1)) ⟨_, _, _, rfl⟩ rfl

lemma done_recompileBrokenOff (t : ℕ) (ht : 21 ≤ t) : (recompileBrokenOff.state t).isDone := by
  have hstate : recompileBrokenOff.state t = _ := ofActions_state _ _ ht
  rw [hstate]
  rfl

lemma silent_recompileBrokenOff : recompileBrokenOff.Silent := by
  intro t requests ha q hq
  have ht : t < 21 := (List.getElem?_eq_some_iff.mp ha).1
  interval_cases t <;> cases ha
  simp only [List.mem_cons, List.not_mem_nil, or_false] at hq
  rcases hq with rfl | rfl | rfl <;> rfl

/-- The invalidation returns the error, the view that was there is released, and the lookup after it
stores another one, though the module has refused to be released. -/
theorem failed_compile_leaves_nothing_reluctant :
    recompileBrokenOff.Returns 1 (.invalidate "/a") 8 13
        (.error ⟨"/a", .brokenOff "cancelled"⟩) ∧
      (∀ t, 8 < t → ∃ w, (recompileBrokenOff.state t).cache.views[0]? = some w ∧ w.released) ∧
      recompileBrokenOff.entryAt "/a" 14 = none ∧
      (∃ o m, 15 < o ∧
        recompileBrokenOff.AnswersAnew 1 (.lookup "/a") 14 "/a" o m (.view 1)) ∧
      (∃ e a, recompileBrokenOff.Returns 1 (.lookup "/a") 14 e a) ∧
      ∃ r' : Run, r'.action = recompileBrokenOff.action ∧
        r'.Returns 1 (.invalidate "/a") 8 13 (.error ⟨"/a", .brokenOff "cancelled"⟩) ∧
        r'.Returns 1 (.lookup "/a") 14 20 (.view 1) := by
  have hkey : Path.normalizeLogical "/a" = "/a" := by decide
  have hopening : recompileBrokenOff.Reaches 1 (.invalidate "/a") 8 11 .opening :=
    .goes (.goes (.goes (.begins rfl rfl) rfl rfl) rfl rfl) rfl rfl
  have hleaving : recompileBrokenOff.Reaches 1 (.invalidate "/a") 8 13
      (.leaving (.error ⟨"/a", .brokenOff "cancelled"⟩)) :=
    .goes (.goes hopening rfl rfl) rfl rfl
  have hwaiting : recompileBrokenOff.Reaches 1 (.lookup "/a") 14 15 (.waiting false) :=
    .goes (.begins rfl rfl) rfl rfl
  have hlookup : recompileBrokenOff.Reaches 1 (.lookup "/a") 14 20 (.leaving (.view 1)) :=
    .goes (.goes (.goes (.goes (.goes hwaiting rfl rfl) rfl rfl) rfl rfl) rfl rfl) rfl rfl
  have hfails : recompileBrokenOff.Returns 1 (.invalidate "/a") 8 13
      (.error ⟨"/a", .brokenOff "cancelled"⟩) := ⟨_, _, ⟨hleaving, rfl⟩, rfl⟩
  have hanswers : recompileBrokenOff.Returns 1 (.lookup "/a") 14 20 (.view 1) :=
    ⟨_, _, ⟨hlookup, rfl⟩, rfl⟩
  obtain ⟨hfailed, hrefusals⟩ := failed_compile_leaves_nothing recompileBrokenOff
  have hleaves := hfailed "/a" 1 _ 8 13 _ (.inr rfl) hfails ⟨11, hopening, rfl⟩
  rw [hkey] at hleaves
  have hfree : ∀ u, 13 < u → u < 15 →
      (recompileBrokenOff.state u).cache.holder? "/a" = none := by
    intro u hu hu'
    obtain rfl : u = 14 := by omega
    rfl
  obtain ⟨hanew, hreturn⟩ :=
    hleaves.next 1 "/a" 14 15 false hkey (by decide) ⟨hwaiting, rfl⟩ hfree
  obtain ⟨r', haction, -, -, -, hsame⟩ := hrefusals silent_recompileBrokenOff
  have hreleased := hleaves.releases 8 .start 0 ⟨.begins rfl rfl, rfl⟩ rfl (by rintro ⟨⟩)
  exact ⟨hfails, hreleased, hleaves.no_entry.2, hanew 20 _ hanswers,
    hreturn ((fair_of_done done_recompileBrokenOff).calls 1), r', haction,
    (hsame ..).mpr hfails, (hsame ..).mpr hanswers⟩

end Run

end CompiledViews
