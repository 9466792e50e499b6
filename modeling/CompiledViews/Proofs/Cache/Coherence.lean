import CompiledViews.Proofs.Cache.Run

/-!
What is true of the cache and the calls at any time of a run. A slot is held by the one call that
is at such a stage. While a call builds a view for a key, the key has no entry. An entry is the
view of one key alone, it is not released, and its key is registered.
-/

namespace CompiledViews

/-- The view of an entry has been made and is not released, no other entry has the same view, and
the key of an entry is registered. -/
structure Cache.Sound (c : Cache) : Prop where
  stored : ∀ (key : String) (id : Nat), c.entry? key = some id →
    ∃ v, c.views[id]? = some v ∧ v.released = false
  single : ∀ (key key' : String) (id : Nat), c.entry? key = some id → c.entry? key' = some id →
    key = key'
  known : ∀ (key : String) (id : Nat), c.entry? key = some id → c.registry.contains key

namespace Machine

/-- The slots and the entries agree with the stages that the calls have come to. -/
structure Coherent (m : Machine) : Prop where
  held : ∀ (key : String) (who : Caller), m.cache.holder? key = some who ↔
    ∃ q s, m.call? who = some (q, s) ∧ s.holds ∧ q.key? = some key
  absent : ∀ (who : Caller) (q : Request) (s : Stage) (key : String), m.call? who = some (q, s) →
    s.builds → q.key? = some key → m.cache.entry? key = none
  known : ∀ (who : Caller) (q : Request) (s : Stage) (key : String), m.call? who = some (q, s) →
    s.wants → q.key? = some key → m.cache.registry.contains key
  fresh : ∀ (who : Caller) (q : Request) (v : View), m.call? who = some (q, .storing v) →
    v.released = false
  sound : m.cache.Sound

/-- Only one call has come to the slot of a key. -/
theorem Coherent.holder_unique {m : Machine} (hm : m.Coherent) {who who' : Caller}
    {q q' : Request} {s s' : Stage} {key : String} (h : m.call? who = some (q, s))
    (h' : m.call? who' = some (q', s')) (hs : s.holds) (hs' : s'.holds) (hq : q.key? = some key)
    (hq' : q'.key? = some key) : who = who' := by
  have hw := (hm.held key who).mpr ⟨q, s, h, hs, hq⟩
  have hw' := (hm.held key who').mpr ⟨q', s', h', hs', hq'⟩
  exact Option.some.inj (hw.symm.trans hw')

theorem coherent_fresh (files : FileTree) (registry : Registry) (workshop : Workshop) :
    (fresh files registry workshop).Coherent := by
  have hcall := call?_fresh files registry workshop
  have hentry : ∀ key, (fresh files registry workshop).cache.entry? key = none := fun _ => rfl
  have hholder : ∀ key, (fresh files registry workshop).cache.holder? key = none := fun _ => rfl
  exact ⟨by simp [hcall, hholder], by simp [hcall], by simp [hcall], by simp [hcall],
    by simp [hentry], by simp [hentry], by simp [hentry]⟩

/-- A pause of the calls keeps everything as it is, for a new call is at no stage. -/
theorem Coherent.of_rests {m m' : Machine} (hm : m.Coherent) (h : m.Rests m') : m'.Coherent := by
  constructor
  · intro key who
    rw [h.cache, hm.held]
    constructor
    · rintro ⟨q, s, hcall, hs⟩
      exact ⟨q, s, h.call?_eq_some hcall, hs⟩
    · rintro ⟨q, s, hcall, hs⟩
      exact ⟨q, s, h.call?_of_ne_start hcall (by rintro rfl; simp at hs), hs⟩
  · intro who q s key hcall hs hq
    rw [h.cache]
    have hbefore := h.call?_of_ne_start hcall (by rintro rfl; simp [Stage.builds] at hs)
    exact hm.absent who q s key hbefore hs hq
  · intro who q s key hcall hs hq
    rw [h.cache]
    have hbefore := h.call?_of_ne_start hcall (by rintro rfl; simp [Stage.wants, Stage.holds] at hs)
    exact hm.known who q s key hbefore hs hq
  · intro who q v hcall
    exact hm.fresh who q v (h.call?_of_ne_start hcall (by simp))
  · exact h.cache ▸ hm.sound

section Moves

variable {m m' : Machine} {w : Caller} {q : Request} {s : Stage} {o : Outcome}

lemma Moves.call_of_stage (h : m.Moves m' w q s o) {q' : Request} {s' : Stage}
    (hcall : m'.call? w = some (q', s')) (hs : s' ≠ .start) : q' = q ∧ s' = o.stage := by
  rcases h.next q' s' hcall with h | h
  · exact h
  · exact absurd h hs

lemma Coherent.owns (hm : m.Coherent) (h : m.Moves m' w q s o) (hs : s.holds) (key : String)
    (hq : q.key? = some key) : m.cache.holder? key = some w :=
  (hm.held key w).mpr ⟨q, s, h.call, hs, hq⟩

/-- The slots are held as the stages say after a move, too. -/
lemma Coherent.held_of_moves (hm : m.Coherent) (h : m.Moves m' w q s o) (key : String)
    (who : Caller) : m'.cache.holder? key = some who ↔
      ∃ q' s', m'.call? who = some (q', s') ∧ s'.holds ∧ q'.key? = some key := by
  rw [h.cache, h.move.holder?_eq (hm.owns h)]
  by_cases hw : who = w
  · subst hw
    have hown : (∃ q' s', m'.call? who = some (q', s') ∧ s'.holds ∧ q'.key? = some key) ↔
        o.stage.holds ∧ q.key? = some key := by
      constructor
      · rintro ⟨q', s', hcall, hs', hq'⟩
        obtain ⟨rfl, rfl⟩ := h.call_of_stage hcall (by rintro rfl; simp at hs')
        exact ⟨hs', hq'⟩
      · rintro ⟨ho, hq⟩
        exact ⟨q, o.stage, h.going (fun hstart => by simp [hstart] at ho), ho, hq⟩
    have hbefore : m.cache.holder? key = some who ↔ s.holds ∧ q.key? = some key := by
      rw [hm.held]
      simp [h.call]
    rw [hown]
    split_ifs with hq ho hs
    · simp [ho, hq]
    · simp [ho]
    · simp [hbefore, hs, ho]
    · simp [hbefore, hq]
  · rw [h.others who hw, ← hm.held]
    split_ifs with hq ho hs
    · -- whoever else holds the slot holds it in vain: it was free, or it was the mover's
      have hne : m.cache.holder? key ≠ some who := by
        intro hheld
        by_cases hs : s.holds
        · exact hw (Option.some.inj (hheld.symm.trans (hm.owns h hs key hq)))
        · simp [h.move.holder?_eq_none (by simpa using hs) ho hq] at hheld
      simp [hne, Ne.symm hw]
    · simp [hm.owns h hs key hq, Ne.symm hw]
    · rfl
    · rfl

/-- A call that builds a view keeps others from storing one under the same key. -/
lemma Coherent.absent_of_moves (hm : m.Coherent) (h : m.Moves m' w q s o) (who : Caller)
    (q' : Request) (s' : Stage) (key : String) (hcall : m'.call? who = some (q', s'))
    (hs' : s'.builds) (hq' : q'.key? = some key) : m'.cache.entry? key = none := by
  rw [h.cache]
  by_cases hw : who = w
  · subst hw
    obtain ⟨rfl, rfl⟩ := h.call_of_stage hcall (by rintro rfl; simp [Stage.builds] at hs')
    rcases h.move.builds_cases hs' with ⟨hs, hsame⟩ | hnone
    · rw [hsame]
      exact hm.absent who q' s key h.call hs hq'
    · exact hnone key hq'
  · rw [h.others who hw] at hcall
    have he := hm.absent who q' s' key hcall hs' hq'
    rcases h.move.entry?_eq key with hsame | hnone | ⟨⟨v, rfl⟩, hq, -⟩
    · rw [hsame, he]
    · exact hnone
    · exact absurd (hm.holder_unique hcall h.call (Stage.holds_of_builds hs') rfl hq' hq) hw

lemma Coherent.known_of_moves (hm : m.Coherent) (h : m.Moves m' w q s o) (who : Caller)
    (q' : Request) (s' : Stage) (key : String) (hcall : m'.call? who = some (q', s'))
    (hs' : s'.wants) (hq' : q'.key? = some key) : m'.cache.registry.contains key := by
  rw [h.cache, h.move.registry_eq]
  by_cases hw : who = w
  · subst hw
    obtain ⟨rfl, rfl⟩ := h.call_of_stage hcall (by
      rintro rfl
      simp [Stage.wants, Stage.holds] at hs')
    rcases h.move.wants_cases hs' with hs | hknown
    · exact hm.known who q' s key h.call hs hq'
    · exact hknown key hq'
  · exact hm.known who q' s' key (h.others who hw ▸ hcall) hs' hq'

lemma Coherent.fresh_of_moves (hm : m.Coherent) (h : m.Moves m' w q s o) (who : Caller)
    (q' : Request) (v : View) (hcall : m'.call? who = some (q', .storing v)) :
    v.released = false := by
  by_cases hw : who = w
  · subst hw
    obtain ⟨rfl, hstage⟩ := h.call_of_stage hcall (by simp)
    obtain ⟨key, content, -, -, hmade⟩ := h.move.stage_eq_storing hstage.symm
    exact Workshop.released_of_make hmade
  · exact hm.fresh who q' v (h.others who hw ▸ hcall)

/-- An entry after a move was there before, or it is the view that the move has stored. -/
lemma Coherent.entry?_of_moves (hm : m.Coherent) (h : m.Moves m' w q s o) {key : String} {id : Nat}
    (he : m'.cache.entry? key = some id) : m.cache.entry? key = some id ∨
      ∃ v, s = .storing v ∧ q.key? = some key ∧ id = m.cache.views.length ∧
        m'.cache.views = m.cache.views ++ [v] := by
  rw [h.cache] at he ⊢
  rcases h.move.entry?_eq key with hsame | hnone | ⟨⟨v, rfl⟩, hq, hnew⟩
  · exact .inl (hsame ▸ he)
  · simp [hnone] at he
  · have hviews := (h.move.storing_eq.2 key hq).2 (hm.absent w q _ key h.call rfl hq)
    exact .inr ⟨v, rfl, hq, Option.some.inj (he.symm.trans hnew), hviews⟩

/-- A move keeps a view as it is together with its entry, or releases it and takes its entry out. -/
lemma Coherent.views_of_moves (hm : m.Coherent) (h : m.Moves m' w q s o) {id : Nat} {v : View}
    (hv : m.cache.views[id]? = some v) :
    m'.cache.views[id]? = some v ∧
        (∀ k, m.cache.entry? k = some id → m'.cache.entry? k = some id) ∨
      m'.cache.views[id]? = some v.release ∧
        ∃ k, m.cache.entry? k = some id ∧ m'.cache.entry? k = none := by
  rw [h.cache]
  refine h.move.views_cases ?_ hv
  rintro v key rfl hq
  exact hm.absent w q _ key h.call rfl hq

/-- The entries of a cache stay sound: what a move releases is no entry any more, and what it
stores is new. -/
lemma Coherent.sound_of_moves (hm : m.Coherent) (h : m.Moves m' w q s o) : m'.cache.Sound := by
  have hnew : ∀ key, m.cache.entry? key ≠ some m.cache.views.length := by
    intro key he
    obtain ⟨v, hv, -⟩ := hm.sound.stored key _ he
    simp at hv
  constructor
  · intro key id he
    rcases hm.entry?_of_moves h he with hold | ⟨v, rfl, -, rfl, hviews⟩
    · obtain ⟨v, hv, hrel⟩ := hm.sound.stored key id hold
      rcases hm.views_of_moves h hv with ⟨hkept, -⟩ | ⟨-, k, hk, hnone⟩
      · exact ⟨v, hkept, hrel⟩
      · rw [hm.sound.single k key id hk hold, he] at hnone
        simp at hnone
    · exact ⟨v, by simp [hviews], hm.fresh w q v h.call⟩
  · intro key key' id he he'
    rcases hm.entry?_of_moves h he with hold | ⟨v, rfl, hq, rfl, -⟩
    · rcases hm.entry?_of_moves h he' with hold' | ⟨v, rfl, -, rfl, -⟩
      · exact hm.sound.single key key' id hold hold'
      · exact absurd hold (hnew key)
    · rcases hm.entry?_of_moves h he' with hold' | ⟨v, -, hq', -⟩
      · exact absurd hold' (hnew key')
      · exact Option.some.inj (hq.symm.trans hq')
  · intro key id he
    rw [h.cache, h.move.registry_eq]
    rcases hm.entry?_of_moves h he with hold | ⟨v, rfl, hq, -⟩
    · exact hm.sound.known key id hold
    · exact hm.known w q _ key h.call rfl hq

theorem Coherent.of_moves (hm : m.Coherent) (h : m.Moves m' w q s o) : m'.Coherent where
  held := hm.held_of_moves h
  absent := hm.absent_of_moves h
  known := hm.known_of_moves h
  fresh := hm.fresh_of_moves h
  sound := hm.sound_of_moves h

end Moves

end Machine

namespace Run

variable (r : Run)

/-- The slots and the entries agree with the calls at any time of a run. -/
theorem coherent (t : ℕ) : (r.state t).Coherent := by
  induction t with
  | zero =>
    obtain ⟨files, registry, workshop, h⟩ := r.fresh
    exact h ▸ Machine.coherent_fresh files registry workshop
  | succ t ih =>
    rcases r.moves_or_rests t with ⟨w, q, s, o, -, h⟩ | ⟨-, h⟩
    · exact ih.of_moves h
    · exact ih.of_rests h

end Run

end CompiledViews
