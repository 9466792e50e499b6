import CompiledViews.Proofs.Cache.Batches
import CompiledViews.Proofs.Cache.Freshness

/-!
Notices of changed paths. A path that was notified stays in line until the loop's client begins to
invalidate it: in the queue, as the first of the next batch, or in the batch.
-/

namespace CompiledViews

namespace Machine

/-- A path waits for its invalidation: in the queue, received first, or in the batch. -/
def InLine (m : Machine) (path : String) : Prop :=
  path ∈ m.queue ∨ m.loop = .gathering path ∨ .invalidate path ∈ m.agenda

/-- The queue is empty, and the loop waits for the next path. -/
structure AtRest (m : Machine) : Prop where
  queue : m.queue = []
  loop : m.loop = .idle
  idle : m.isIdle

variable {m m' : Machine} {path : String}

/-- Before the drain, a path in the queue can only become the first of the next batch. -/
lemma waits_of_act {a : Action} (h : m.act a = some m') (hdrain : a ≠ .drain)
    (hwaits : path ∈ m.queue ∨ m.loop = .gathering path) :
    path ∈ m'.queue ∨ m'.loop = .gathering path := by
  cases a with
  | call requests | edit files =>
    obtain rfl := Option.some.inj h
    exact hwaits
  | notify p =>
    obtain rfl := Option.some.inj h
    exact hwaits.imp_left (List.mem_append_left _)
  | advance who =>
    obtain ⟨cl, cl', c', -, -, rfl⟩ := act_advance_eq_some h
    exact hwaits
  | receive =>
    obtain ⟨first, rest, hloop, -, hqueue, rfl⟩ := act_receive_eq_some h
    rcases hwaits with hmem | hgathering
    · rw [hqueue] at hmem
      rcases List.mem_cons.mp hmem with rfl | hmem
      · exact .inr rfl
      · exact .inl hmem
    · simp [hloop] at hgathering
  | drain => exact absurd rfl hdrain

/-- Nothing waits at rest. -/
lemma AtRest.not_inLine (h : m.AtRest) (ht : m.Tidy) : ¬ m.InLine path := by
  simp [InLine, h.queue, h.loop, ht.agenda_eq_nil h.idle]

end Machine

namespace Run

variable (r : Run)

/-- What the source of a key yields at a time. -/
def sourceAt (key : String) (t : ℕ) : Except ViewError Content :=
  (r.state t).cache.openSource (r.state t).files key

/-- In turn `t` the source of a key is changed. -/
def Changes (key : String) (t : ℕ) : Prop := r.sourceAt key (t + 1) ≠ r.sourceAt key t

/-- In turn `t` a path of a key is notified. -/
def Notifies (key : String) (t : ℕ) : Prop :=
  ∃ path, r.action t = some (.notify path) ∧ Path.normalizeLogical path = key

/-- At time `t` a change of the source of a key is still to be notified. -/
def Outstanding (key : String) (t : ℕ) : Prop :=
  ∃ n, n < t ∧ r.Changes key n ∧ ∀ m, n < m → m < t → ¬ r.Notifies key m

variable {r} {path key : String} {n t : ℕ} {id : Nat}

/-- A path stays in line until it is begun to be invalidated. -/
theorem inLine_succ (h : (r.state t).InLine path) :
    (r.state (t + 1)).InLine path ∨ r.Begins 0 (.invalidate path) t := by
  by_cases hdrain : r.action t = some .drain
  · obtain ⟨first, hloop, hempty, -, -, hagenda⟩ := agenda_of_drain hdrain
    have hmem : path ∈ first :: (r.state t).queue := by
      rcases h with h | h | h
      · exact List.mem_cons_of_mem _ h
      · rw [hloop] at h
        cases h
        exact List.mem_cons_self
      · simp [hempty] at h
    exact .inl (.inr (.inr (hagenda ▸ mem_invalidations.mpr ⟨path, hmem, rfl⟩)))
  · have hwaits : path ∈ (r.state t).queue ∨ (r.state t).loop = .gathering path →
        path ∈ (r.state (t + 1)).queue ∨ (r.state (t + 1)).loop = .gathering path := by
      intro hwaits
      cases ha : r.action t with
      | none => rwa [r.state_succ_of_pause t ha]
      | some a =>
        exact Machine.waits_of_act (r.act_eq t ha) (by rintro rfl; exact hdrain ha) hwaits
    rcases h with h | h | h
    · exact .inl ((hwaits (.inl h)).imp_right .inl)
    · exact .inl ((hwaits (.inr h)).imp_right .inl)
    · rw [agenda_eq hdrain, List.mem_append, Option.mem_toList] at h
      rcases h with h | h
      · exact .inr (begunIn_eq_some_iff.mp h)
      · exact .inl (.inr (.inr h))

/-- A path that was notified is in line, or it has been begun to be invalidated since. -/
theorem inLine_or_begun (h : r.action n = some (.notify path)) (hnt : n < t) :
    (r.state t).InLine path ∨ ∃ b, n < b ∧ b < t ∧ r.Begins 0 (.invalidate path) b := by
  induction hnt with
  | refl =>
    have hact := Option.some.inj (r.act_eq n h)
    left
    left
    rw [← hact]
    simp
  | @step t hnt ih =>
    rcases ih with hline | ⟨b, hnb, hbt, hbegins⟩
    · exact (inLine_succ hline).imp_right fun hbegins => ⟨t, hnt, Nat.lt_succ_self t, hbegins⟩
    · exact .inr ⟨b, hnb, Nat.lt_succ_of_lt hbt, hbegins⟩

/-- At rest, every path that was notified has been invalidated since. -/
theorem invalidated_at_rest (hrest : (r.state t).AtRest) (h : r.action n = some (.notify path))
    (hnt : n < t) : ∃ b e a, n < b ∧ e < t ∧ r.Returns 0 (.invalidate path) b e a := by
  obtain ⟨b, hnb, hbt, hbegins⟩ := (inLine_or_begun h hnt).resolve_left
    (hrest.not_inLine (r.tidy t))
  obtain ⟨e, a, het, hreturns⟩ := hbegins.returned_of_isIdle hbt hrest.idle
  exact ⟨b, e, a, hnb, het, hreturns⟩

/-- At rest, a key is up to date since any notice of it. -/
theorem upToDate_at_rest (hrest : (r.state t).AtRest) (h : r.Notifies key n) (hnt : n < t) :
    r.UpToDate (n + 1) key t := by
  obtain ⟨path, hnotify, rfl⟩ := h
  obtain ⟨b, e, a, hnb, het, hreturns⟩ := invalidated_at_rest hrest hnotify hnt
  exact (hreturns.upToDate.1.later (Nat.succ_le_succ hreturns.le) het).mono
    (Nat.succ_le_succ (Nat.le_of_lt hnb))

lemma sourceAt_eq (hnt : n ≤ t) (h : ∀ u, n ≤ u → u < t → ¬ r.Changes key u) :
    r.sourceAt key n = r.sourceAt key t := by
  induction hnt with
  | refl => rfl
  | @step t hnt ih =>
    have hlast : r.sourceAt key (t + 1) = r.sourceAt key t :=
      not_not.mp (h t hnt (Nat.lt_succ_self t))
    rw [hlast, ih fun u hnu hut => h u hnu (Nat.lt_succ_of_lt hut)]

lemma no_change_or_last (key : String) (t : ℕ) : (∀ u, u < t → ¬ r.Changes key u) ∨
    ∃ n, n < t ∧ r.Changes key n ∧ ∀ u, n < u → u < t → ¬ r.Changes key u := by
  induction t with
  | zero => exact .inl (by simp)
  | succ t ih =>
    by_cases hlast : r.Changes key t
    · exact .inr ⟨t, Nat.lt_succ_self t, hlast, fun u htu hut => by omega⟩
    · have hlater : ∀ u, (u < t → ¬ r.Changes key u) → u < t + 1 → ¬ r.Changes key u := by
        intro u hu hut
        rcases Nat.lt_succ_iff_lt_or_eq.mp hut with hut | rfl
        · exact hu hut
        · exact hlast
      rcases ih with hno | ⟨n, hnt, hchange, hno⟩
      · exact .inl fun u hut => hlater u (hno u) hut
      · exact .inr ⟨n, Nat.lt_succ_of_lt hnt, hchange, fun u hnu hut => hlater u (hno u hnu) hut⟩

/-- At rest, with no change of a source still to be notified, a view that is stored is a view of
what the source yields. -/
theorem exists_current_compile (hrest : (r.state t).AtRest) (hnone : ¬ r.Outstanding key t)
    (he : r.entryAt key t = some id) : ∃ x, r.Compiled x key id ∧
      (∀ n, n < t → r.Changes key n → n < x.opened) ∧ r.sourceAt key t = .ok x.content := by
  rcases r.no_change_or_last key t with hno | ⟨n, hnt, hchange, hno⟩
  · obtain ⟨x, hx, -, hxt⟩ := (r.upToDate_zero t key).stored id he
    have hopened : x.opened ≤ t := Nat.le_of_lt (Nat.lt_trans hx.opened_lt_stored hxt)
    refine ⟨x, hx, fun n hnt hchange => absurd hchange (hno n hnt), ?_⟩
    rw [← sourceAt_eq hopened fun u _ hut => hno u hut]
    exact hx.opens.2.2
  · obtain ⟨m, hnm, hmt, hnotifies⟩ : ∃ m, n < m ∧ m < t ∧ r.Notifies key m := by
      by_contra hnot
      exact hnone ⟨n, hnt, hchange, fun m hnm hmt hnotifies => hnot ⟨m, hnm, hmt, hnotifies⟩⟩
    obtain ⟨x, hx, hmx, hxt⟩ := (upToDate_at_rest hrest hnotifies hmt).stored id he
    have hopened : x.opened ≤ t := Nat.le_of_lt (Nat.lt_trans hx.opened_lt_stored hxt)
    refine ⟨x, hx, fun n' hnt' hchange' => ?_, ?_⟩
    · by_contra hle
      exact hno n' (by omega) hnt' hchange'
    · rw [← sourceAt_eq hopened fun u hxu hut => hno u (by omega) hut]
      exact hx.opens.2.2

end Run

end CompiledViews
