import CompiledViews.Proofs.Cache.Calls

/-!
Batches of the loop. What the loop's client has yet to begin changes in two ways only: the client
begins the first of it, or the loop drains its queue into a new batch when nothing is left. So
between two drains the client begins the requests of one batch, each once and in their order.
-/

namespace CompiledViews

theorem mem_distinctPaths (paths : List String) (path : String) :
    path ∈ distinctPaths paths ↔ path ∈ paths := by
  simp [distinctPaths, Table.mem_keys_ofRows]

theorem distinctPaths_ordered (paths : List String) : (distinctPaths paths).Pairwise (· < ·) :=
  Table.keys_ordered _

theorem mem_invalidations {paths : List String} {q : Request} :
    q ∈ invalidations paths ↔ ∃ path ∈ paths, q = .invalidate path := by
  simp only [invalidations, List.mem_map, mem_distinctPaths, eq_comm]

/-- The requests that a client has not begun. -/
def Client.unbegun (cl : Client) : List Request :=
  match cl.stage with
  | .start => cl.todo
  | _ => cl.todo.tail

lemma Client.unbegun_of_ne_start {cl : Client} (h : cl.stage ≠ .start) :
    cl.unbegun = cl.todo.tail := by
  unfold unbegun
  split
  · exact absurd (by assumption) h
  · rfl

/-- What the client of the loop has yet to begin. -/
def Machine.agenda (m : Machine) : List Request := (m.clients[0]?.map Client.unbegun).getD []

namespace Machine

variable {m m' : Machine}

lemma Tidy.agenda_eq_nil (hm : m.Tidy) (hidle : m.isIdle) : m.agenda = [] := by
  obtain ⟨cl, hcl, htodo⟩ := isIdle_iff.mp hidle
  have hstart := hm.rests 0 cl hcl htodo
  simp [agenda, hcl, Client.unbegun, hstart, htodo]

lemma length_le_of_act {a : Action} (h : m.act a = some m') :
    m.clients.length ≤ m'.clients.length := by
  cases a with
  | call requests | edit files | notify path =>
    obtain rfl := Option.some.inj h
    simp
  | advance who =>
    obtain ⟨cl, cl', c', -, -, rfl⟩ := act_advance_eq_some h
    simp
  | receive =>
    obtain ⟨first, rest, -, -, -, rfl⟩ := act_receive_eq_some h
    exact Nat.le_refl _
  | drain =>
    obtain ⟨first, -, rfl⟩ := act_drain_eq_some h
    simp

lemma agenda_of_act {a : Action} {cl : Client} (h : m.act a = some m')
    (hcl : m.clients[0]? = some cl) (hdrain : some a ≠ some .drain)
    (hadv : some a ≠ some (.advance 0)) : m'.agenda = m.agenda := by
  cases a with
  | call requests =>
    obtain rfl := Option.some.inj h
    have hlt := (List.getElem?_eq_some_iff.mp hcl).1
    rw [agenda, agenda, List.getElem?_append_left hlt]
  | advance who =>
    obtain ⟨cl', d, c', -, -, rfl⟩ := act_advance_eq_some h
    have hne : who ≠ 0 := by
      rintro rfl
      exact hadv rfl
    simp [agenda, List.getElem?_set_ne hne]
  | edit files | notify path =>
    obtain rfl := Option.some.inj h
    rfl
  | receive =>
    obtain ⟨first, rest, -, -, -, rfl⟩ := act_receive_eq_some h
    rfl
  | drain => exact absurd rfl hdrain

end Machine

namespace Run

variable (r : Run)

/-- The call that a caller begins in a turn. -/
def begunIn (who : Caller) (t : ℕ) : Option Request :=
  match r.action t, (r.state t).call? who with
  | some (.advance w), some (q, .start) => if w = who then some q else none
  | _, _ => none

/-- The calls that a caller begins from turn `a` on and before turn `z`, one after the other. -/
def begun (who : Caller) (a z : ℕ) : List Request :=
  (List.range' a (z - a)).filterMap (r.begunIn who)

variable {r} {who : Caller} {q : Request} {a t z : ℕ} {first path : String}

lemma begunIn_eq_some_iff : r.begunIn who t = some q ↔ r.Begins who q t := by
  unfold begunIn Begins
  split
  case h_1 w q' ha hcall =>
    split
    case isTrue h =>
      subst h
      simp [ha, hcall]
    case isFalse h => simp [ha, h]
  case h_2 hno =>
    constructor
    · intro h
      cases h
    · rintro ⟨ha, hcall⟩
      exact absurd hcall (hno who q ha)

lemma begunIn_eq_none (h : r.action t ≠ some (.advance who)) : r.begunIn who t = none := by
  cases hb : r.begunIn who t with
  | none => rfl
  | some q => exact absurd (begunIn_eq_some_iff.mp hb).1 h

lemma begun_self : r.begun who a a = [] := by simp [begun]

lemma begun_succ (h : a ≤ t) :
    r.begun who a (t + 1) = r.begun who a t ++ (r.begunIn who t).toList := by
  rw [begun, turns_succ h, List.filterMap_append]
  cases hb : r.begunIn who t <;> simp [begun, hb]

/-- The loop always has its client. -/
lemma exists_loop_client (t : ℕ) : ∃ cl, (r.state t).clients[0]? = some cl := by
  suffices h : 0 < (r.state t).clients.length from ⟨_, List.getElem?_eq_getElem h⟩
  induction t with
  | zero =>
    obtain ⟨files, registry, workshop, h⟩ := r.fresh
    simp [h, Machine.fresh]
  | succ t ih =>
    cases ha : r.action t with
    | none => rwa [r.state_succ_of_pause t ha]
    | some a => exact Nat.lt_of_lt_of_le ih (Machine.length_le_of_act (r.act_eq t ha))

/-- In a turn that is no drain, the agenda loses what is begun in it, and nothing else. -/
theorem agenda_eq (h : r.action t ≠ some .drain) :
    (r.state t).agenda = (r.begunIn 0 t).toList ++ (r.state (t + 1)).agenda := by
  obtain ⟨cl, hcl⟩ := r.exists_loop_client t
  by_cases hadv : r.action t = some (.advance 0)
  · obtain ⟨cl₁, cl', c', hcl₁, hstep, hnext⟩ := Machine.act_advance_eq_some (r.act_eq t hadv)
    obtain rfl := Option.some.inj (hcl.symm.trans hcl₁)
    have hlt : 0 < (r.state t).clients.length := (List.getElem?_eq_some_iff.mp hcl).1
    obtain ⟨q, rest, htodo, hcases⟩ := Client.advance_eq_some hstep
    have hafter : (r.state (t + 1)).agenda = rest := by
      have hagenda : (r.state (t + 1)).agenda = cl'.unbegun := by
        simp [hnext, Machine.agenda, hlt]
      rcases hcases with ⟨s, ho, rfl⟩ | ⟨a, -, rfl⟩
      · have hmove : (r.state t).cache.Move (r.state t).files 0 q cl.stage _ :=
          .of_step (by simp [ho])
        rw [hagenda, Client.unbegun_of_ne_start (hmove.ne_start ho)]
        simp [htodo]
      · exact hagenda
    have hcall : (r.state t).call? 0 = some (q, cl.stage) :=
      Machine.call?_eq_some_iff.mpr ⟨cl, rest, hcl, htodo, rfl⟩
    rw [hafter, begunIn, hadv, hcall]
    cases hs : cl.stage <;> simp [Machine.agenda, hcl, Client.unbegun, htodo, hs]
  · rw [begunIn_eq_none hadv]
    cases ha : r.action t with
    | none =>
      rw [r.state_succ_of_pause t ha]
      rfl
    | some a =>
      exact (Machine.agenda_of_act (r.act_eq t ha) hcl (ha ▸ h) (ha ▸ hadv)).symm

/-- Until the next drain, the agenda is what has been begun and what has yet to be. -/
theorem agenda_eq_begun_append (hat : a ≤ t)
    (hdrain : ∀ u, a ≤ u → u < t → r.action u ≠ some .drain) :
    (r.state a).agenda = r.begun 0 a t ++ (r.state t).agenda := by
  induction hat with
  | refl => simp [begun_self]
  | @step t hat ih =>
    have hbefore := ih fun u hau hut => hdrain u hau (Nat.lt_succ_of_lt hut)
    rw [hbefore, agenda_eq (hdrain t hat (Nat.lt_succ_self t)), begun_succ hat, List.append_assoc]

/-- A drain finds a first path received and the client of the loop with nothing to do, and makes a
batch of that path and all those in the queue. -/
theorem agenda_of_drain (h : r.action t = some .drain) : ∃ first,
    (r.state t).loop = .gathering first ∧ (r.state t).agenda = [] ∧
      (r.state (t + 1)).loop = .idle ∧ (r.state (t + 1)).queue = [] ∧
      (r.state (t + 1)).agenda = invalidations (first :: (r.state t).queue) := by
  obtain ⟨first, hloop, hnext⟩ := Machine.act_drain_eq_some (r.act_eq t h)
  have hidle := (r.tidy t).gathers (by simp [hloop])
  obtain ⟨cl, hcl, htodo⟩ := Machine.isIdle_iff.mp hidle
  have hstart := (r.tidy t).rests 0 cl hcl htodo
  refine ⟨first, hloop, (r.tidy t).agenda_eq_nil hidle, ?_⟩
  rw [hnext]
  simp [Machine.agenda, hcl, Client.unbegun, hstart]

/-- The client of the loop does nothing but invalidate. -/
theorem eq_invalidate_of_mem_agenda (h : q ∈ (r.state t).agenda) :
    ∃ path, q = .invalidate path := by
  induction t with
  | zero =>
    obtain ⟨files, registry, workshop, hfresh⟩ := r.fresh
    simp [hfresh, Machine.fresh, Machine.agenda, Client.unbegun] at h
  | succ t ih =>
    by_cases hdrain : r.action t = some .drain
    · obtain ⟨first, -, -, -, -, hagenda⟩ := agenda_of_drain hdrain
      rw [hagenda] at h
      obtain ⟨path, -, hq⟩ := mem_invalidations.mp h
      exact ⟨path, hq⟩
    · exact ih (by rw [agenda_eq hdrain]; exact List.mem_append_right _ h)

lemma mem_agenda_of_begins (h : r.Begins 0 q t) : q ∈ (r.state t).agenda := by
  have hdrain : r.action t ≠ some .drain := by simp [h.1]
  simp [agenda_eq hdrain, begunIn_eq_some_iff.mpr h]

theorem eq_invalidate_of_call? {s : Stage} (h : (r.state t).call? 0 = some (q, s)) :
    ∃ path, q = .invalidate path := by
  by_cases hs : s = .start
  · obtain ⟨cl, rest, hcl, htodo, rfl⟩ := Machine.call?_eq_some_iff.mp h
    have hmem : q ∈ (r.state t).agenda := by
      simp [Machine.agenda, hcl, Client.unbegun, hs, htodo]
    exact eq_invalidate_of_mem_agenda hmem
  · obtain ⟨b, hreach⟩ := exists_reaches hs h
    exact eq_invalidate_of_mem_agenda (mem_agenda_of_begins hreach.begins_of)

lemma ne_drain_of_call? {s : Stage} (h : (r.state t).call? 0 = some (q, s)) :
    r.action t ≠ some .drain := by
  intro hdrain
  obtain ⟨first, hloop, -⟩ := agenda_of_drain hdrain
  have hidle := (r.tidy t).gathers (by simp [hloop])
  rw [Machine.call?_eq_none_of_isIdle hidle] at h
  cases h

lemma exists_call?_of_mem_agenda (h : q ∈ (r.state t).agenda) :
    ∃ q' s, (r.state t).call? 0 = some (q', s) := by
  obtain ⟨cl, hcl⟩ := r.exists_loop_client t
  have hmem : q ∈ cl.unbegun := by simpa [Machine.agenda, hcl] using h
  cases htodo : cl.todo with
  | nil => cases hs : cl.stage <;> simp [Client.unbegun, htodo, hs] at hmem
  | cons q' rest =>
    exact ⟨q', cl.stage, Machine.call?_eq_some_iff.mpr ⟨cl, rest, hcl, htodo, rfl⟩⟩

lemma Begins.returned_of_isIdle {b : ℕ} (h : r.Begins 0 q b) (hbt : b < t)
    (hidle : (r.state t).isIdle) : ∃ e a, e < t ∧ r.Returns 0 q b e a := by
  refine h.returned hbt fun s hcall => ?_
  rw [Machine.call?_eq_none_of_isIdle hidle] at hcall
  cases hcall

/-- When the client of the loop has nothing to do, it has begun the whole batch, and whatever the
answers were, each call of it has returned. -/
theorem batch_returned {d : ℕ} (hdt : d < t)
    (hno : ∀ u, d < u → u < t → r.action u ≠ some .drain) (hidle : (r.state t).isIdle) :
    r.begun 0 (d + 1) t = (r.state (d + 1)).agenda ∧
      ∀ q ∈ (r.state (d + 1)).agenda, ∃ b e a, d < b ∧ e < t ∧ r.Returns 0 q b e a := by
  have hbegun := agenda_eq_begun_append hdt hno
  rw [(r.tidy t).agenda_eq_nil hidle, List.append_nil] at hbegun
  refine ⟨hbegun.symm, fun q hq => ?_⟩
  rw [hbegun, begun, List.mem_filterMap] at hq
  obtain ⟨b, hb, hbegins⟩ := hq
  obtain ⟨hdb, hbt⟩ := List.mem_range'_1.mp hb
  obtain ⟨e, a, het, hreturns⟩ := (begunIn_eq_some_iff.mp hbegins).returned_of_isIdle
    (show b < t by omega) hidle
  exact ⟨b, e, a, hdb, het, hreturns⟩

end Run

end CompiledViews
