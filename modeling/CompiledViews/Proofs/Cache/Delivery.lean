import CompiledViews.Proofs.Cache.Notices
import CompiledViews.Proofs.Cache.Progress

/-!
Delivery of notices. No notice is lost: its path stays in line until the loop begins to invalidate
it, each batch is invalidated to the end, and once the loop is at rest the views that are stored are
those of what the sources yield.
-/

namespace CompiledViews

namespace Machine

variable {m m' : Machine} {a : Action}

lemma loop_of_act (h : m.act a = some m') (hreceive : a ≠ .receive) (hdrain : a ≠ .drain) :
    m'.loop = m.loop := by
  cases a with
  | call requests | edit files | notify path =>
    obtain rfl := Option.some.inj h
    rfl
  | advance who =>
    obtain ⟨cl, cl', c', -, -, rfl⟩ := act_advance_eq_some h
    rfl
  | receive => exact absurd rfl hreceive
  | drain => exact absurd rfl hdrain

end Machine

namespace Run

variable {r : Run} {path : String} {n t : ℕ}

lemma isIdle_of_call?_eq_none (h : (r.state t).call? 0 = none) : (r.state t).isIdle := by
  obtain ⟨cl, hcl⟩ := r.exists_loop_client t
  refine Machine.isIdle_iff.mpr ⟨cl, hcl, ?_⟩
  simpa [Machine.call?, hcl, Client.call?] using h

/-- A loop that gathers drains its queue at some time. -/
theorem Fair.exists_drain {first : String} (hfair : r.Fair)
    (h : (r.state t).loop = .gathering first) : ∃ u, t ≤ u ∧ r.action u = some .drain := by
  have hstays : ∀ u, (r.state u).loop = .gathering first → r.action u ≠ some .drain →
      (r.state (u + 1)).loop = .gathering first := by
    intro u hu hne
    cases ha : r.action u with
    | none => rwa [r.state_succ_of_pause u ha]
    | some a =>
      have hact := r.act_eq u ha
      rw [Machine.loop_of_act hact ?_ (by rintro rfl; exact hne ha), hu]
      rintro rfl
      simp [Machine.act, hu] at hact
  obtain ⟨u, htu, -, ha⟩ := hfair.drains.taken h
    (fun u hu => by simp [Enabled, Machine.act, hu]) hstays
  exact ⟨u, htu, ha⟩

/-- A loop that waits with a path in its queue receives one at some time. -/
theorem Fair.exists_gathering (hfair : r.Fair) (hidle : (r.state t).isIdle)
    (hloop : (r.state t).loop = .idle) (hmem : path ∈ (r.state t).queue) :
    ∃ u first, t ≤ u ∧ (r.state u).loop = .gathering first := by
  have hon : ∀ u, ((r.state u).isIdle ∧ (r.state u).loop = .idle ∧ path ∈ (r.state u).queue) →
      r.Enabled .receive u := by
    rintro u ⟨hidle, hloop, hmem⟩
    obtain ⟨first, rest, hqueue⟩ := List.exists_cons_of_ne_nil (List.ne_nil_of_mem hmem)
    simp [Enabled, Machine.act, hidle, hloop, hqueue]
  have hstays : ∀ u, ((r.state u).isIdle ∧ (r.state u).loop = .idle ∧ path ∈ (r.state u).queue) →
      r.action u ≠ some .receive →
      (r.state (u + 1)).isIdle ∧ (r.state (u + 1)).loop = .idle ∧
        path ∈ (r.state (u + 1)).queue := by
    rintro u ⟨hidle, hloop, hmem⟩ hne
    cases ha : r.action u with
    | none =>
      rw [r.state_succ_of_pause u ha]
      exact ⟨hidle, hloop, hmem⟩
    | some a =>
      have hact := r.act_eq u ha
      have hdrain : a ≠ .drain := by
        rintro rfl
        simp [Machine.act, hloop] at hact
      have hloop' := Machine.loop_of_act hact (by rintro rfl; exact hne ha) hdrain
      refine ⟨Machine.isIdle_of_act hact hidle hdrain, hloop'.trans hloop, ?_⟩
      rcases Machine.waits_of_act hact hdrain (.inl hmem) with h | h
      · exact h
      · rw [hloop', hloop] at h
        cases h
  obtain ⟨u, htu, -, ha⟩ := hfair.receives.taken ⟨hidle, hloop, hmem⟩ hon hstays
  obtain ⟨first, rest, -, -, -, hnext⟩ := Machine.act_receive_eq_some (r.act_eq u ha)
  exact ⟨u + 1, first, Nat.le_succ_of_le htu, by rw [hnext]⟩

/-- Every path that is notified is invalidated by a call that begins after it was. -/
theorem Fair.exists_invalidation (hfair : r.Fair) (h : r.action n = some (.notify path)) :
    ∃ b e a, n < b ∧ r.Returns 0 (.invalidate path) b e a := by
  suffices hbegins : ∃ b, n < b ∧ r.Begins 0 (.invalidate path) b by
    obtain ⟨b, hnb, hbegins⟩ := hbegins
    obtain ⟨e, a, hreturns⟩ := hfair.exists_returns hfair.slots rfl hbegins
    exact ⟨b, e, a, hnb, hreturns⟩
  by_contra hno
  have hline : ∀ t, n < t → (r.state t).InLine path := by
    intro t hnt
    refine (inLine_or_begun h hnt).resolve_right ?_
    rintro ⟨b, hnb, -, hbegins⟩
    exact hno ⟨b, hnb, hbegins⟩
  have hagenda : ∀ t, n < t → .invalidate path ∉ (r.state t).agenda := by
    intro t hnt hmem
    obtain ⟨u, htu, hbegins⟩ := hfair.exists_begins hmem
    exact hno ⟨u, by omega, hbegins⟩
  -- so the path is never in a batch, but the next drain puts it there
  have hdrain : ∀ t, n < t → r.action t ≠ some .drain := by
    intro t hnt hdrain
    obtain ⟨first, -, -, hloop, hqueue, -⟩ := agenda_of_drain hdrain
    rcases hline (t + 1) (by omega) with h | h | h
    · simp [hqueue] at h
    · simp [hloop] at h
    · exact hagenda (t + 1) (by omega) h
  have hgathering : ∀ t first, n < t → (r.state t).loop ≠ .gathering first := by
    intro t first hnt hloop
    obtain ⟨u, htu, ha⟩ := hfair.exists_drain hloop
    exact hdrain u (by omega) ha
  obtain ⟨u, hnu, hcall⟩ := hfair.exists_idle (n + 1)
  have hloop : (r.state u).loop = .idle := by
    cases hl : (r.state u).loop with
    | idle => rfl
    | gathering first => exact absurd hl (hgathering u first (by omega))
  rcases hline u (by omega) with hmem | h | h
  · obtain ⟨v, first, huv, hv⟩ :=
      hfair.exists_gathering (isIdle_of_call?_eq_none hcall) hloop hmem
    exact hgathering v first (by omega) hv
  · exact hgathering u path (by omega) h
  · exact hagenda u (by omega) h

/-- No notice is lost. A path that was notified is in line until a call that invalidates it begins,
and in a fair run such a call begins and returns. A drain makes a batch of the different paths there
are, in order; until the next drain the loop begins the requests of the batch alone, and when it is
idle again it has begun each of them once and each has returned, with any answer. At rest, a view
that is stored comes from a source opened after all notices of its key, and if no change is still to
be notified, after all changes of the source, so that it is a view of what the source yields. -/
theorem no_notice_lost (r : Run) :
    (∀ n t path, r.action n = some (.notify path) → n < t → (r.state t).InLine path ∨
      ∃ b, n < b ∧ b < t ∧ r.Begins 0 (.invalidate path) b) ∧
    (r.Fair → ∀ n path, r.action n = some (.notify path) →
      ∃ b e a, n < b ∧ r.Returns 0 (.invalidate path) b e a) ∧
    (∀ d, r.action d = some .drain → ∃ paths : List String,
      paths.Pairwise (· < ·) ∧
      (∀ path, path ∈ paths ↔ (r.state d).loop = .gathering path ∨ path ∈ (r.state d).queue) ∧
      ∀ t, d < t → (∀ u, d < u → u < t → r.action u ≠ some .drain) →
        r.begun 0 (d + 1) t ++ (r.state t).agenda = paths.map .invalidate ∧
        ((r.state t).isIdle → r.begun 0 (d + 1) t = paths.map .invalidate ∧
          ∀ path ∈ paths, ∃ b e a, d < b ∧ e < t ∧ r.Returns 0 (.invalidate path) b e a)) ∧
    (∀ t key id, (r.state t).AtRest → r.entryAt key t = some id →
      (∀ n, n < t → r.Notifies key n → r.CompiledSince (n + 1) key id) ∧
      (¬ r.Outstanding key t → ∃ x, r.Compiled x key id ∧
        (∀ n, n < t → r.Changes key n → n < x.opened) ∧ r.sourceAt key t = .ok x.content)) := by
  refine ⟨fun n t path h hnt => inLine_or_begun h hnt, fun hfair n path h =>
    hfair.exists_invalidation h, fun d hdrain => ?_, fun t key id hrest he => ⟨?_, ?_⟩⟩
  · obtain ⟨first, hloop, -, -, -, hagenda⟩ := agenda_of_drain hdrain
    refine ⟨distinctPaths (first :: (r.state d).queue), distinctPaths_ordered _, fun path => ?_,
      fun t hdt hno => ⟨?_, fun hidle => ?_⟩⟩
    · simp [mem_distinctPaths, hloop, eq_comm]
    · exact (agenda_eq_begun_append hdt hno).symm.trans hagenda
    · obtain ⟨hbegun, hreturned⟩ := batch_returned hdt hno hidle
      refine ⟨hbegun.trans hagenda, fun path hpath => hreturned _ ?_⟩
      rw [hagenda]
      exact List.mem_map_of_mem hpath
  · intro n hnt hnotifies
    exact (upToDate_at_rest hrest hnotifies hnt).compiledSince he
  · exact fun hnone => exists_current_compile hrest hnone he

/-- A path is notified twice, and invalidated once. -/
def notifiedTwice : Run :=
  .ofActions .blank [.call [.lookup "/a"], .advance 1, .advance 1, .advance 1, .advance 1,
    .advance 1, .advance 1, .advance 1, .notify "/a", .notify "/a", .receive, .drain, .advance 0,
    .advance 0, .advance 0, .advance 0, .advance 0, .advance 0, .advance 0]
    Machine.exists_blank_eq_fresh rfl

lemma fair_notifiedTwice : notifiedTwice.Fair := by
  refine fair_of_done (n := 19) fun t ht => ?_
  have hstate : notifiedTwice.state t = _ := ofActions_state _ _ ht
  rw [hstate]
  rfl

theorem invalidated_after_notified_twice :
    notifiedTwice.begun 0 12 19 = [.invalidate "/a"] ∧
      ∃ b e a, 9 < b ∧ notifiedTwice.Returns 0 (.invalidate "/a") b e a :=
  ⟨rfl, (no_notice_lost notifiedTwice).2.1 fair_notifiedTwice 9 "/a" rfl⟩

end Run

end CompiledViews
