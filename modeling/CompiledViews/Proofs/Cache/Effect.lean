import CompiledViews.Proofs.Cache.Move

/-!
What the moves of a call have in common. A move takes the slot of its key only when it is free and
touches no other slot; it makes an entry only by storing a view; and it releases a view exactly when
it takes out the entry of the view.
-/

namespace CompiledViews

/-- A view that has just been made has the path that it was made for, and is not released. -/
theorem Workshop.eq_of_make {w : Workshop} {path : String} {content : Content} {v : View}
    (h : (w.make path content).1 = .ok v) : ∃ m, v = { path := path, ns := w.ns, module := m } := by
  simp only [make] at h
  split at h
  · cases h
  · cases h
  · split at h
    · cases h
    · split at h
      · cases h
      case h_2 m host _ =>
        cases h
        exact ⟨m, rfl⟩

theorem Workshop.released_of_make {w : Workshop} {path : String} {content : Content} {v : View}
    (h : (w.make path content).1 = .ok v) : v.released = false := by
  obtain ⟨m, rfl⟩ := eq_of_make h
  rfl

namespace Cache

variable {c : Cache} {t : FileTree} {who : Caller} {q : Request} {s : Stage} {o : Outcome}

@[simp] lemma holds_stage_settle (q : Request) (a : Answer) (c : Cache) :
    (q.settle a c).stage.holds = false := by
  rcases Outcome.stage_settle q a c with h | ⟨id, h⟩ <;> simp [h, Stage.holds]

@[simp] lemma wants_stage_settle (q : Request) (a : Answer) (c : Cache) :
    (q.settle a c).stage.wants = false := by
  rcases Outcome.stage_settle q a c with h | ⟨id, h⟩ <;> simp [h, Stage.wants, Stage.holds]

@[simp] lemma builds_stage_settle (q : Request) (a : Answer) (c : Cache) :
    (q.settle a c).stage.builds = false := by
  rcases Outcome.stage_settle q a c with h | ⟨id, h⟩ <;> simp [h, Stage.builds]

lemma stage_settle_ne {a : Answer} (hs : s.holds) : (q.settle a c).stage ≠ s := by
  rintro rfl
  simp at hs

theorem Move.registry_eq (h : c.Move t who q s o) : (o.cache c).registry = c.registry := by
  cases h <;> simp

/-- A slot is taken only when it is free. -/
theorem Move.holder?_eq_none (h : c.Move t who q s o) (hs : s.holds = false) (ho : o.stage.holds)
    {key : String} (hq : q.key? = some key) : c.holder? key = none := by
  cases h with
  | hit | leaves => simp at ho
  | take hq' hfree => rwa [Option.some.inj (hq.symm.trans hq')]
  | _ => simp [Stage.holds] at hs ho

/-- A move touches the slot of its own key alone: it has the slot as long as the stage says so. -/
theorem Move.holder?_eq (h : c.Move t who q s o)
    (hs : s.holds → ∀ key, q.key? = some key → c.holder? key = some who) (k : String) :
    (o.cache c).holder? k =
      if q.key? = some k then
        if o.stage.holds then some who else if s.holds then none else c.holder? k
      else c.holder? k := by
  have hkey : ∀ key, q.key? = some key → (q.key? = some k ↔ k = key) := by
    intro key hq
    simp [hq, eq_comm]
  cases h with
  | hit => simp
  | take hq _ => simp [holder?_takeSlot, hkey _ hq, Stage.holds]
  | leaves hq => simp [holder?_freeSlot, hkey _ hq]
  | hitLate | miss | rebuilt | rebuild | evictLate | absent | opens | unopened | fails | makes
    | stores =>
    have hown := fun hk => hs rfl k hk
    by_cases hk : q.key? = some k
    · simp [Stage.holds, hk, hown hk]
    · simp [hk]
  | _ => simp [Stage.holds, holder?_askSlot]

/-- An entry comes from storing a view alone. -/
theorem Move.entry?_eq (h : c.Move t who q s o) (k : String) :
    entry? (o.cache c) k = c.entry? k ∨ entry? (o.cache c) k = none ∨
      (∃ v, s = .storing v) ∧ q.key? = some k ∧ entry? (o.cache c) k = some c.views.length := by
  cases h with
  | evict | forget | evictLate => simp [entry?_evict]; tauto
  | stores hq =>
    by_cases hk : q.key? = some k
    · simp [entry?_store, hk, Option.some.inj (hq.symm.trans hk)]
    · have hne : ∀ key, q.key? = some key → k ≠ key := by rintro key hq rfl; exact hk hq
      simp [entry?_store, hne _ hq]
  | _ => simp

/-- Whoever is about to store a view for a key either was so before, or has found no entry or taken
it out just now. -/
theorem Move.builds_cases (h : c.Move t who q s o) (ho : o.stage.builds) :
    (s.builds ∧ ∀ k, entry? (o.cache c) k = c.entry? k) ∨
      ∀ key, q.key? = some key → entry? (o.cache c) key = none := by
  cases h with
  | hit | leaves => simp at ho
  | miss hq he =>
    right
    intro key hk
    rw [Request.key?_of_lookupKey? hq] at hk
    simpa [← Option.some.inj hk] using he
  | rebuild hq he =>
    right
    intro key hk
    rw [Request.key?_of_invalidationKey? hq] at hk
    simpa [← Option.some.inj hk] using he
  | evictLate hq he =>
    right
    intro key hk
    rw [Request.key?_of_invalidationKey? hq] at hk
    simp [← Option.some.inj hk, entry?_evict]
  | opens | makes => exact .inl ⟨rfl, by simp⟩
  | _ => simp [Stage.builds] at ho

/-- A call that has come as far as asking for a slot is about a source that is registered. -/
theorem Move.wants_cases (h : c.Move t who q s o) (ho : o.stage.wants) :
    s.wants ∨ ∀ key, q.key? = some key → c.registry.contains key := by
  cases h with
  | hit | leaves => simp at ho
  | ask hq _ hr =>
    right
    intro key hk
    rwa [← Option.some.inj (hq.symm.trans hk)]
  | evict hq _ hr =>
    right
    intro key hk
    rwa [← Option.some.inj ((Request.key?_of_invalidationKey? hq).symm.trans hk)]
  | unknown | forget | ignore | renders | gets | clears => simp [Stage.wants] at ho
  | _ => exact .inl rfl

/-- A call is about to store a view because it has just made it. -/
theorem Move.stage_eq_storing {v : View} (h : c.Move t who q s o) (ho : o.stage = .storing v) :
    ∃ key content, q.key? = some key ∧ s = .making (.ok content) ∧
      (c.make key content).1 = .ok v := by
  cases h with
  | hit | leaves => exact absurd ho (stage_settle_ne rfl)
  | @makes q key content w hq hw =>
    obtain rfl : w = v := by simpa using ho
    exact ⟨key, content, hq, rfl, hw⟩
  | _ => simp at ho

/-- A call has opened its source just before. -/
theorem Move.stage_eq_making {content : Content} (h : c.Move t who q s o)
    (ho : o.stage = .making (.ok content)) :
    s = .opening ∧ ∃ key, q.key? = some key ∧ c.openSource t key = .ok content := by
  cases h with
  | hit | leaves => exact absurd ho (stage_settle_ne rfl)
  | @opens q key hq => exact ⟨rfl, key, hq, by simpa using ho⟩
  | _ => simp at ho

/-- A view that is stored where there was no entry is the newest, and the call leaves with it. -/
theorem Move.storing_eq {v : View} (h : c.Move t who q (.storing v) o) :
    o = .going (.leaving (.view c.views.length)) (o.cache c) ∧
      ∀ key, q.key? = some key → entry? (o.cache c) key = some c.views.length ∧
        (c.entry? key = none → (o.cache c).views = c.views ++ [v]) := by
  cases h with
  | stores hq =>
    refine ⟨by simp [store_fst], fun key hk => ?_⟩
    rw [Option.some.inj (hq.symm.trans hk)]
    exact ⟨by simp [entry?_store], fun he => by simp [views_store _ _ _ he]⟩

theorem Move.ne_blocked (h : c.Move t who q s o) : o ≠ .blocked := by
  cases h with
  | hit | leaves =>
    unfold Request.settle
    split <;> simp
  | _ => simp

/-- A call that goes on is not at its start again. -/
theorem Move.ne_start {s' : Stage} {c' : Cache} (h : c.Move t who q s o) (ho : o = .going s' c') :
    s' ≠ .start := by
  cases h with
  | hit | leaves =>
    unfold Request.settle at ho
    split at ho <;> cases ho
    simp
  | _ => cases ho <;> simp

/-- A call leaves with the view that it has found or has stored. -/
theorem Move.stage_eq_leaving {id : Nat} {key : String} (h : c.Move t who q s o)
    (hq : q.key? = some key) (ho : o.stage = .leaving (.view id)) :
    c.entry? key = some id ∨ entry? (o.cache c) key = some id := by
  cases h with
  | hit | leaves => exact absurd ho (stage_settle_ne rfl)
  | @hitLate _ _ id' _ hq' he =>
    obtain rfl : id' = id := by simpa using ho
    rw [Request.key?_of_lookupKey? hq'] at hq
    exact .inl (Option.some.inj hq ▸ he)
  | @rebuilt _ _ id' hq' he =>
    obtain rfl : id' = id := by simpa using ho
    rw [Request.key?_of_invalidationKey? hq'] at hq
    exact .inl (Option.some.inj hq ▸ he)
  | @stores _ key' v hq' =>
    obtain rfl : key' = key := Option.some.inj (hq'.symm.trans hq)
    exact .inr (by simpa [entry?_store, store_fst] using ho)
  | _ => simp at ho

/-- Only a call that renders is brought to the rendering of a view: of the entry that it has found
at its start, or of the view that it leaves with. -/
theorem Move.stage_eq_rendering {id : Nat} (h : c.Move t who q s o)
    (ho : o.stage = .rendering id) : (∃ path model, q = .render path model) ∧
      ((∃ key, q.key? = some key ∧ c.entry? key = some id) ∨ s = .leaving (.view id)) := by
  cases h with
  | @hit q key id' hq he =>
    cases q with
    | render path model =>
      obtain rfl : id' = id := by simpa [Request.settle] using ho
      exact ⟨⟨path, model, rfl⟩, .inl ⟨key, Request.key?_of_lookupKey? hq, he⟩⟩
    | _ => simp [Request.settle] at ho
  | @leaves q key a hq =>
    cases q with
    | render path model =>
      refine ⟨⟨path, model, rfl⟩, .inr ?_⟩
      cases a <;> simp_all [Request.settle]
    | _ => simp [Request.settle] at ho
  | _ => simp at ho

/-- A call that returns a view has found it at its start, or it leaves with it. -/
theorem Move.finished_view {id : Nat} {key : String} {c' : Cache} (h : c.Move t who q s o)
    (hq : q.key? = some key) (ho : o = .finished (.view id) c') :
    c.entry? key = some id ∨ s = .leaving (.view id) := by
  cases h with
  | @hit q _ id' hq' he =>
    rw [Request.key?_of_lookupKey? hq'] at hq
    left
    cases q <;> simp_all [Request.settle]
  | @leaves q _ a =>
    right
    cases q <;> cases a <;> simp_all [Request.settle]
  | gets => simp [Request.key?] at hq
  | renders =>
    simp only [renderFound] at ho
    split at ho
    · simp at ho
    · split at ho <;> simp at ho
  | _ => simp at ho

/-- Of the views there are, a move keeps each as it is together with its entry, or releases it and
takes its entry out. -/
theorem Move.views_cases (h : c.Move t who q s o)
    (habsent : ∀ v key, s = .storing v → q.key? = some key → c.entry? key = none)
    {id : Nat} {v : View} (hv : c.views[id]? = some v) :
    (o.cache c).views[id]? = some v ∧
        (∀ k, c.entry? k = some id → entry? (o.cache c) k = some id) ∨
      (o.cache c).views[id]? = some v.release ∧
        ∃ k, c.entry? k = some id ∧ entry? (o.cache c) k = none := by
  have hevict : ∀ key i, c.entry? key = some i →
      (c.evict key).2.views[id]? = some v ∧
          (∀ k, c.entry? k = some id → entry? (c.evict key).2 k = some id) ∨
        (c.evict key).2.views[id]? = some v.release ∧
          ∃ k, c.entry? k = some id ∧ entry? (c.evict key).2 k = none := by
    intro key i he
    rw [views_evict c key i he, List.getElem?_modify, hv]
    by_cases hi : i = id
    · subst hi
      exact .inr ⟨by simp, key, he, by simp [entry?_evict]⟩
    · refine .inl ⟨by simp [hi], fun k hk => ?_⟩
      have hne : k ≠ key := by
        rintro rfl
        exact hi (Option.some.inj (he.symm.trans hk))
      simp [entry?_evict, hne, hk]
  cases h with
  | evict hq he | forget hq he | evictLate hq he => simpa using hevict _ _ he
  | @stores q key w hq =>
    have he := habsent w key rfl hq
    have hlt : id < c.views.length := (List.getElem?_eq_some_iff.mp hv).1
    refine .inl ⟨by simp [views_store _ _ _ he, List.getElem?_append_left hlt, hv], fun k hk => ?_⟩
    have hne : k ≠ key := by
      rintro rfl
      simp [he] at hk
    simp [entry?_store, hne, hk]
  | clears =>
    by_cases hm : id ∈ c.entries.values
    · obtain ⟨k, hk⟩ := (mem_values_iff c id).mp hm
      exact .inr ⟨by simp [getElem?_clear, hv, hm], k, hk, by simp⟩
    · refine .inl ⟨by simp [getElem?_clear, hv, hm], fun k hk => ?_⟩
      exact absurd ((mem_values_iff c id).mpr ⟨k, hk⟩) hm
  | _ => exact .inl ⟨by simpa using hv, by simp⟩

end Cache

end CompiledViews
