import CompiledViews.Proofs.Cache.Alone
import CompiledViews.Proofs.Cache.Separation
import CompiledViews.Proofs.Module.Names

/-!
Two caches, of which the second holds only one key of the first. A step of a call on this key does
the same in both, except that views are numbered without those of other keys in the second, and that
modules have other names.
-/

namespace CompiledViews

namespace Cache

variable {c : Cache} {t : FileTree} {who : Caller} {q : Request} {s : Stage} {o : Outcome}

lemma evict_eq {key : String} {id : ℕ} (h : c.entry? key = some id) :
    c.evict key = (some id, (c.evict key).2) := Prod.ext (c.evict_of_some key id h) rfl

/-- A move is the step of the call. -/
theorem Move.step_eq (h : c.Move t who q s o) : c.step t who q s = o := by
  cases h with
  | hit hq he =>
    rw [step_start_of_lookupKey? hq, lookupStep, he]
    rfl
  | unknown hq he hr =>
    rw [step_start_of_lookupKey? hq, lookupStep, he]
    cases q <;> simp [approach, hr, settled, Request.settle]
  | @ask _ key hq he hr =>
    cases hinvalidates : q.invalidationKey? with
    | none =>
      have hq : q.lookupKey? = some key := by
        cases q <;> first | exact hq | cases hinvalidates
      rw [step_start_of_lookupKey? hq, lookupStep, he]
      simp [approach, hr, settled]
    | some key' =>
      obtain rfl : key' = key :=
        Option.some.inj ((Request.key?_of_invalidationKey? hinvalidates).symm.trans hq)
      rw [step_start_of_invalidationKey? hinvalidates, invalidateStep, c.evict_of_none _ he]
      simp [approach, hr]
  | evict hq he hr | forget hq he hr =>
    rw [step_start_of_invalidationKey? hq, invalidateStep, evict_eq he]
    simp [approach, hr]
  | ignore hq he hr =>
    rw [step_start_of_invalidationKey? hq, invalidateStep, c.evict_of_none _ he]
    exact if_neg hr
  | take hq hfree =>
    rw [step_of_wants hq rfl, workStep, hfree]
    rfl
  | hitLate hq he | miss hq he =>
    rw [step_of_wants (Request.key?_of_lookupKey? hq) rfl, workStep, again_of_lookupKey? hq]
    simp [lookAgain, he, settled]
  | rebuilt hq he | rebuild hq he =>
    rw [step_of_wants (Request.key?_of_invalidationKey? hq) rfl, workStep,
      again_of_invalidationKey? hq]
    simp [evictAgain, he, settled]
  | evictLate hq he =>
    rw [step_of_wants (Request.key?_of_invalidationKey? hq) rfl, workStep,
      again_of_invalidationKey? hq, evictAgain, evict_eq he]
    rfl
  | absent hq he =>
    rw [step_of_wants (Request.key?_of_invalidationKey? hq) rfl, workStep,
      again_of_invalidationKey? hq, evictAgain, c.evict_of_none _ he]
    rfl
  | opens hq | unopened hq | stores hq | leaves hq =>
    rw [step_of_wants hq rfl]
    rfl
  | fails hq hmake | makes hq hmake =>
    rw [step_of_wants hq rfl, workStep, ← Prod.eta (c.make _ _), hmake]
    rfl
  | renders | gets | clears => rfl

end Cache

namespace Request

/-- Whether a request is about a key. -/
def isOn (k : String) (q : Request) : Bool := q.subject? = some k

/-- Whether a request looks a view up, invalidates it, or gets it from the entries. -/
def isPlain : Request → Bool
  | .lookup _ | .invalidate _ | .get _ => true
  | .render _ _ | .clear => false

variable {q : Request} {k key : String}

lemma isOn_iff : q.isOn k ↔ q.subject? = some k := decide_eq_true_iff

lemma settle_of_isPlain (h : q.isPlain) (a : Answer) (c : Cache) :
    q.settle a c = .finished a c := by
  cases q with
  | render | clear => cases h
  | lookup | invalidate | get => rfl

end Request

namespace Cache

/-- The views of a key, in the order in which they were made. -/
def viewsOf (c : Cache) (k : String) : List View := c.views.filter (·.path = k)

/-- The number of a view among those of its key. -/
def numberOf (c : Cache) (k : String) (id : ℕ) : ℕ := (c.views.take id).countP (·.path = k)

/-- The second cache holds of a key what the first one holds of it, where the views of other keys
are not counted: the entry, the slot, and the views as far as the names of modules go. -/
structure Mirrors (k : String) (c c' : Cache) : Prop where
  registry : c'.registry = c.registry
  workshop : ∃ begun host, c'.workshop = { c.workshop with begun := begun, host := host }
  entry : c'.entry? k = (c.entry? k).map (c.numberOf k)
  slot : c'.slots.get? k = c.slots.get? k
  views : c'.views.map View.nameless = (c.viewsOf k).map View.nameless

end Cache

/-- An answer about a key in one cache, and the same answer in one that holds this key alone. -/
inductive Answer.Mirrors (c : Cache) (k : String) : Answer → Answer → Prop
  | view {id : ℕ} {v : View} : c.views[id]? = some v → v.path = k →
      Mirrors c k (.view id) (.view (c.numberOf k id))
  | nothing : Mirrors c k .nothing .nothing
  | error {e e' : ViewError} : e.Alike e' → Mirrors c k (.error e) (.error e')

/-- The same stage of a call on a key in two such caches. -/
inductive Stage.Mirrors (c : Cache) (k : String) : Stage → Stage → Prop
  | start : Mirrors c k .start .start
  | waiting (evicted : Bool) : Mirrors c k (.waiting evicted) (.waiting evicted)
  | holding (evicted : Bool) : Mirrors c k (.holding evicted) (.holding evicted)
  | opening : Mirrors c k .opening .opening
  | making (opened : Except ViewError Content) : Mirrors c k (.making opened) (.making opened)
  | storing {v v' : View} : v.path = k → v.nameless = v'.nameless →
      Mirrors c k (.storing v) (.storing v')
  | leaving {a a' : Answer} : a.Mirrors c k a' → Mirrors c k (.leaving a) (.leaving a')

/-- Counts with what has been gained. -/
def Counts.add (n gain : Counts) : Counts where
  hits := n.hits + gain.hits
  misses := n.misses + gain.misses
  compilations := n.compilations + gain.compilations
  failures := n.failures + gain.failures
  evictions := n.evictions + gain.evictions

/-- The same is gained from `n` to `m` as from `n'` to `m'`. -/
def Counts.GainAlike (n m n' m' : Counts) : Prop := ∃ gain, m = n.add gain ∧ m' = n'.add gain

namespace Cache

variable {c d : Cache} {k : String}

/-- The views that there are keep their numbers and their paths. -/
def Extends (c d : Cache) : Prop :=
  ∀ (id : ℕ) (v : View), c.views[id]? = some v → ∃ w, d.views[id]? = some w ∧ w.path = v.path

/-- A move makes a view of a new number, or none. -/
theorem Move.extends {t : FileTree} {who : Caller} {q : Request} {s : Stage} {o : Outcome}
    (h : c.Move t who q s o)
    (habsent : ∀ v key, s = .storing v → q.key? = some key → c.entry? key = none) :
    c.Extends (o.cache c) := by
  intro id v hv
  rcases h.views_cases habsent hv with ⟨hkept, -⟩ | ⟨hreleased, -⟩
  · exact ⟨v, hkept, rfl⟩
  · exact ⟨v.release, hreleased, v.path_release⟩

lemma numberOf_eq_of_extends (h : c.Extends d) {id : ℕ} {v : View} (hv : c.views[id]? = some v)
    (k : String) : d.numberOf k id = c.numberOf k id := by
  have hlt : id < c.views.length := (List.getElem?_eq_some_iff.mp hv).1
  have hpaths : (d.views.take id).map View.path = (c.views.take id).map View.path := by
    refine List.ext_getElem? fun i => ?_
    rw [List.getElem?_map, List.getElem?_map, List.getElem?_take, List.getElem?_take]
    by_cases hi : i < id
    · obtain ⟨w, hw, hpath⟩ := h i _ (List.getElem?_eq_getElem (hi.trans hlt))
      simp [hi, hw, hpath, List.getElem?_eq_getElem (hi.trans hlt)]
    · simp [hi]
  have hcount : ∀ vs : List View, vs.countP (·.path = k) = (vs.map View.path).countP (· = k) :=
    fun vs => by simp [List.countP_map, Function.comp_def]
  rw [numberOf, numberOf, hcount, hcount, hpaths]

end Cache

lemma Answer.Mirrors.mono {c d : Cache} {k : String} {a a' : Answer} (h : a.Mirrors c k a')
    (hext : c.Extends d) : a.Mirrors d k a' := by
  cases h with
  | @view id v hv hpath =>
    obtain ⟨w, hw, hpath'⟩ := hext id v hv
    rw [← Cache.numberOf_eq_of_extends hext hv]
    exact .view hw (hpath'.trans hpath)
  | nothing => exact .nothing
  | error he => exact .error he

lemma Stage.Mirrors.mono {c d : Cache} {k : String} {s s' : Stage} (h : s.Mirrors c k s')
    (hext : c.Extends d) : s.Mirrors d k s' := by
  cases h with
  | start => exact .start
  | waiting e => exact .waiting e
  | holding e => exact .holding e
  | opening => exact .opening
  | making opened => exact .making opened
  | storing hpath hv => exact .storing hpath hv
  | leaving ha => exact .leaving (ha.mono hext)

lemma Counts.GainAlike.refl (n n' : Counts) : Counts.GainAlike n n n' n' := ⟨{}, rfl, rfl⟩

/-- The same comes of a step in two such caches. -/
inductive Outcome.Mirrors (k : String) : Outcome → Outcome → Prop
  | going {c c' : Cache} {s s' : Stage} : c.Mirrors k c' → s.Mirrors c k s' →
      Mirrors k (.going s c) (.going s' c')
  | finished {c c' : Cache} {a a' : Answer} : c.Mirrors k c' → a.Mirrors c k a' →
      Mirrors k (.finished a c) (.finished a' c')

lemma View.nameless_release (v : View) : v.release.nameless = v.nameless.release := by
  unfold release nameless
  dsimp only
  split <;> rfl

/-- Whatever a workshop makes, it counts what it has begun, and may have recorded a module. -/
lemma Workshop.make_snd (w : Workshop) (path : String) (content : Content) :
    ∃ host, (w.make path content).2 = { w with begun := w.begun + 1, host := host } := by
  simp only [make]
  split
  · exact ⟨_, rfl⟩
  · exact ⟨_, rfl⟩
  · split
    · exact ⟨_, rfl⟩
    · split <;> exact ⟨_, rfl⟩

namespace Cache.Mirrors

variable {c c' d d' : Cache} {k key : String} {t : FileTree} {who : Caller} {id : ℕ} {v v' : View}
  {q : Request} {s s' : Stage} {o : Outcome}

/-- Whatever does not touch the tables or the views keeps caches mirrored. -/
lemma of_same (h : c.Mirrors k c') (hregistry : d.registry = c.registry)
    (hworkshop : d.workshop = c.workshop) (hentry : d.entry? k = c.entry? k)
    (hviews : d.views = c.views) (hregistry' : d'.registry = c'.registry)
    (hworkshop' : d'.workshop = c'.workshop) (hentry' : d'.entry? k = c'.entry? k)
    (hviews' : d'.views = c'.views) (hslot : d'.slots.get? k = d.slots.get? k) :
    d.Mirrors k d' where
  registry := by rw [hregistry, hregistry', h.registry]
  workshop := by rw [hworkshop, hworkshop']; exact h.workshop
  entry := by
    have hnumbers : d.numberOf k = c.numberOf k := by
      funext id
      rw [numberOf, hviews, numberOf]
    rw [hentry, hentry', h.entry, hnumbers]
  slot := hslot
  views := by rw [hviews', h.views]; simp only [viewsOf, hviews]

lemma count (h : c.Mirrors k c') (f g : Counts → Counts) : (c.count f).Mirrors k (c'.count g) :=
  h.of_same rfl rfl rfl rfl rfl rfl rfl rfl h.slot

lemma holder?_eq (h : c.Mirrors k c') : c'.holder? k = c.holder? k := congrArg Option.join h.slot

lemma askSlot (h : c.Mirrors k c') : (c.askSlot k).Mirrors k (c'.askSlot k) := by
  refine h.of_same (by simp) (by simp) (by simp) (by simp) (by simp) (by simp) (by simp) (by simp)
    ?_
  have hknown : c'.slots.contains k = c.slots.contains k := congrArg Option.isSome h.slot
  unfold Cache.askSlot
  rw [hknown]
  split
  · exact h.slot
  · simp

lemma takeSlot (h : c.Mirrors k c') (who : Caller) :
    (c.takeSlot k who).Mirrors k (c'.takeSlot k who) :=
  h.of_same rfl rfl rfl rfl rfl rfl rfl rfl (by simp [Cache.takeSlot])

lemma freeSlot (h : c.Mirrors k c') : (c.freeSlot k).Mirrors k (c'.freeSlot k) :=
  h.of_same rfl rfl rfl rfl rfl rfl rfl rfl (by simp [Cache.freeSlot])

lemma openSource (h : c.Mirrors k c') (t : FileTree) (key : String) :
    c'.openSource t key = c.openSource t key := by
  unfold Cache.openSource
  rw [h.registry]

/-- Both make the same of a content. -/
lemma make_alike (h : c.Mirrors k c') (hw : c.workshop.Impartial) (content : Content) :
    Except.Alike ViewError.Alike (fun v v' : View => v.nameless = v'.nameless)
      (c.make k content).1 (c'.make k content).1 := by
  obtain ⟨begun, host, hworkshop⟩ := h.workshop
  have halike := hw k content c.workshop.begun c.workshop.host begun host
  rw [← hworkshop] at halike
  exact halike

lemma make (h : c.Mirrors k c') (content : Content) :
    (c.make k content).2.Mirrors k (c'.make k content).2 where
  registry := h.registry
  workshop := by
    obtain ⟨begun, host, hworkshop⟩ := h.workshop
    obtain ⟨host₁, hmake⟩ := c.workshop.make_snd k content
    obtain ⟨host₂, hmake'⟩ := c'.workshop.make_snd k content
    refine ⟨begun + 1, host₂, ?_⟩
    simp only [Cache.make]
    rw [hmake, hmake', hworkshop]
  entry := h.entry
  slot := h.slot
  views := h.views

/-- A view stands where its number among the views of the key says. -/
lemma exists_view (h : c.Mirrors k c') (hv : c.views[id]? = some v) (hpath : v.path = k) :
    ∃ v', c'.views[c.numberOf k id]? = some v' ∧ v'.nameless = v.nameless := by
  have hfiltered : (c.viewsOf k)[c.numberOf k id]? = some v :=
    getElem?_filter_countP hv (by simpa using hpath)
  have hsame := congrArg (·[c.numberOf k id]?) h.views
  simpa only [List.getElem?_map, hfiltered, Option.map_some, Option.map_eq_some_iff] using hsame

/-- Views of the key are numbered in the order of their numbers. -/
lemma numberOf_lt {id' : ℕ} (hv : c.views[id]? = some v) (hpath : v.path = k) (hlt : id < id') :
    c.numberOf k id < c.numberOf k id' := by
  have hsucc : c.numberOf k (id + 1) = c.numberOf k id + 1 := by
    rw [numberOf, List.take_add_one, hv, List.countP_append]
    simp [numberOf, hpath]
  have hle : c.numberOf k (id + 1) ≤ c.numberOf k id' :=
    (List.take_sublist_take_left hlt).countP_le
  omega

lemma entry_eq_none (h : c.Mirrors k c') (he : c.entry? k = none) : c'.entry? k = none := by
  rw [h.entry, he]
  rfl

lemma entry_eq_some (h : c.Mirrors k c') (he : c.entry? k = some id) :
    c'.entry? k = some (c.numberOf k id) := by
  rw [h.entry, he]
  rfl

/-- An entry is taken out of both, and the view of both is released. -/
lemma evict (h : c.Mirrors k c') (hplaced : c.Placed) (he : c.entry? k = some id) :
    (c.evict k).2.Mirrors k (c'.evict k).2 where
  registry := by simpa using h.registry
  workshop := by simpa using h.workshop
  entry := by simp [entry?_evict]
  slot := by simpa using h.slot
  views := by
    obtain ⟨v, hv, hpath⟩ := hplaced k id he
    have hmap := map_modify_of_comm View.nameless_release
    rw [views_evict c' k _ (h.entry_eq_some he), viewsOf, views_evict c k id he,
      filter_modify_of_pos (by simp) hv (by simpa using hpath), hmap, hmap, h.views]
    rfl

/-- What is made anew is stored in both. -/
lemma store (h : c.Mirrors k c') (hnone : c.entry? k = none) (hpath : v.path = k)
    (hv : v.nameless = v'.nameless) : (c.store k v).2.Mirrors k (c'.store k v').2 ∧
      (c'.store k v').1 = (c.store k v).2.numberOf k (c.store k v).1 := by
  have hviews := c.views_store k v hnone
  have hviews' := c'.views_store k v' (h.entry_eq_none hnone)
  have hlength : c'.views.length = (c.store k v).2.numberOf k c.views.length := by
    have hsame := congrArg List.length h.views
    rw [List.length_map, List.length_map] at hsame
    rw [hsame, numberOf, hviews, List.take_left' rfl, viewsOf, List.countP_eq_length_filter]
  refine ⟨⟨by simpa using h.registry, by simpa using h.workshop, ?_, by simpa using h.slot, ?_⟩, ?_⟩
  · rw [entry?_store, entry?_store, if_pos rfl, if_pos rfl, Option.map_some, hlength]
  · rw [hviews', viewsOf, hviews, List.filter_append, List.map_append, List.map_append, h.views]
    simp [viewsOf, hpath, hv]
  · rw [store_fst, store_fst, hlength]

/-- What a call on the key does in the one cache it does in the other. -/
theorem step (h : c.Mirrors k c') (hw : c.workshop.Impartial) (hplaced : c.Placed)
    (hmove : c.Move t who q s o) (hon : q.isOn k) (hplain : q.isPlain) (hs : s.Mirrors c k s')
    (habsent : ∀ v key, s = .storing v → q.key? = some key → c.entry? key = none) :
    ∃ o', c'.Move t who q s' o' ∧ o.Mirrors k o' ∧
      c.counts.GainAlike (o.cache c).counts c'.counts (o'.cache c').counts := by
  have hk : ∀ {key}, q.key? = some key → key = k := fun hkey =>
    Option.some.inj ((Request.subject?_of_key? hkey).symm.trans (Request.isOn_iff.mp hon))
  have hview : ∀ {id}, c.entry? k = some id →
      Answer.Mirrors c k (.view id) (.view (c.numberOf k id)) := by
    intro id he
    obtain ⟨v, hv, hpath⟩ := hplaced k id he
    exact .view hv hpath
  have hext := hmove.extends habsent
  have hsettle := Request.settle_of_isPlain hplain
  cases hmove with
  | @hit _ _ id hq he =>
    obtain rfl := hk (Request.key?_of_lookupKey? hq)
    cases hs
    rw [hsettle] at hext ⊢
    refine ⟨_, .hit hq (h.entry_eq_some he), ?_, ?_⟩
    · rw [hsettle]
      exact .finished (h.count _ _) ((hview he).mono hext)
    · rw [hsettle]
      exact ⟨⟨1, 0, 0, 0, 0⟩, rfl, rfl⟩
  | unknown hq he hr =>
    obtain rfl := hk (Request.key?_of_lookupKey? hq)
    cases hs
    exact ⟨_, .unknown hq (h.entry_eq_none he) (by rwa [h.registry]),
      .finished h (.error (.refl _)), .refl _ _⟩
  | ask hq he hr =>
    obtain rfl := hk hq
    cases hs
    exact ⟨_, .ask hq (h.entry_eq_none he) (by rwa [h.registry]), .going h.askSlot (.waiting _),
      {}, by simp [Counts.add], by simp [Counts.add]⟩
  | evict hq he hr =>
    obtain rfl := hk (Request.key?_of_invalidationKey? hq)
    cases hs
    refine ⟨_, .evict hq (h.entry_eq_some he) (by rwa [h.registry]),
      .going (h.evict hplaced he).askSlot (.waiting _), ?_⟩
    exact ⟨⟨0, 0, 0, 0, 1⟩, by simp [Counts.add, counts_evict _ _ _ he],
      by simp [Counts.add, counts_evict _ _ _ (h.entry_eq_some he)]⟩
  | forget hq he hr =>
    obtain rfl := hk (Request.key?_of_invalidationKey? hq)
    cases hs
    refine ⟨_, .forget hq (h.entry_eq_some he) (by rwa [h.registry]),
      .finished (h.evict hplaced he) (.error (.refl _)), ?_⟩
    exact ⟨⟨0, 0, 0, 0, 1⟩, by simp [Counts.add, counts_evict _ _ _ he],
      by simp [Counts.add, counts_evict _ _ _ (h.entry_eq_some he)]⟩
  | ignore hq he hr =>
    obtain rfl := hk (Request.key?_of_invalidationKey? hq)
    cases hs
    exact ⟨_, .ignore hq (h.entry_eq_none he) (by rwa [h.registry]), .finished h .nothing,
      .refl _ _⟩
  | take hq hfree =>
    obtain rfl := hk hq
    cases hs
    exact ⟨_, .take hq (h.holder?_eq.trans hfree), .going (h.takeSlot who) (.holding _), .refl _ _⟩
  | hitLate hq he =>
    obtain rfl := hk (Request.key?_of_lookupKey? hq)
    cases hs
    refine ⟨_, .hitLate hq (h.entry_eq_some he),
      .going (h.count _ _) (.leaving ((hview he).mono hext)), ?_⟩
    exact ⟨⟨1, 0, 0, 0, 0⟩, rfl, rfl⟩
  | miss hq he =>
    obtain rfl := hk (Request.key?_of_lookupKey? hq)
    cases hs
    refine ⟨_, .miss hq (h.entry_eq_none he), .going (h.count _ _) .opening, ?_⟩
    exact ⟨⟨0, 1, 0, 0, 0⟩, rfl, rfl⟩
  | rebuilt hq he =>
    obtain rfl := hk (Request.key?_of_invalidationKey? hq)
    cases hs
    exact ⟨_, .rebuilt hq (h.entry_eq_some he), .going h (.leaving (hview he)), .refl _ _⟩
  | rebuild hq he =>
    obtain rfl := hk (Request.key?_of_invalidationKey? hq)
    cases hs
    exact ⟨_, .rebuild hq (h.entry_eq_none he), .going h .opening, .refl _ _⟩
  | evictLate hq he =>
    obtain rfl := hk (Request.key?_of_invalidationKey? hq)
    cases hs
    refine ⟨_, .evictLate hq (h.entry_eq_some he), .going (h.evict hplaced he) .opening, ?_⟩
    exact ⟨⟨0, 0, 0, 0, 1⟩, by simp [Counts.add, counts_evict _ _ _ he],
      by simp [Counts.add, counts_evict _ _ _ (h.entry_eq_some he)]⟩
  | absent hq he =>
    obtain rfl := hk (Request.key?_of_invalidationKey? hq)
    cases hs
    exact ⟨_, .absent hq (h.entry_eq_none he), .going h (.leaving .nothing), .refl _ _⟩
  | opens hq =>
    obtain rfl := hk hq
    cases hs
    refine ⟨_, .opens hq, ?_, .refl _ _⟩
    rw [h.openSource]
    exact .going h (.making _)
  | unopened hq =>
    obtain rfl := hk hq
    cases hs
    refine ⟨_, .unopened hq, .going (h.count _ _) (.leaving (.error (.refl _))), ?_⟩
    exact ⟨⟨0, 0, 0, 1, 0⟩, rfl, rfl⟩
  | @fails _ _ content _ hq hmake =>
    obtain rfl := hk hq
    cases hs
    have halike := h.make_alike hw content
    rw [hmake] at halike
    generalize hmake' : (c'.make _ content).1 = x at halike
    cases halike with
    | error he =>
      refine ⟨_, .fails hq hmake', .going ((h.make content).count _ _) (.leaving (.error he)), ?_⟩
      exact ⟨⟨0, 0, 0, 1, 0⟩, rfl, rfl⟩
  | @makes _ _ content _ hq hmake =>
    obtain rfl := hk hq
    cases hs
    have halike := h.make_alike hw content
    rw [hmake] at halike
    generalize hmake' : (c'.make _ content).1 = x at halike
    obtain ⟨m, rfl⟩ := Workshop.eq_of_make hmake
    cases halike with
    | ok hv =>
      refine ⟨_, .makes hq hmake', .going ((h.make content).count _ _) (.storing rfl hv), ?_⟩
      exact ⟨⟨0, 0, 1, 0, 0⟩, rfl, rfl⟩
  | stores hq =>
    obtain rfl := hk hq
    cases hs with
    | storing hpath hv =>
      have hnone := habsent _ _ rfl hq
      obtain ⟨hstored, hnumber⟩ := h.store hnone hpath hv
      refine ⟨_, .stores hq, .going hstored (.leaving ?_), ?_⟩
      · rw [hnumber]
        exact .view (by simp [store_fst, views_store _ _ _ hnone]) hpath
      · exact ⟨{}, by simp [Counts.add], by simp [Counts.add]⟩
  | leaves hq =>
    obtain rfl := hk hq
    cases hs with
    | leaving ha =>
      rw [hsettle] at hext ⊢
      refine ⟨_, .leaves hq, ?_, ?_⟩
      · rw [hsettle]
        exact .finished h.freeSlot (ha.mono hext)
      · rw [hsettle]
        exact .refl _ _
  | renders => cases hplain
  | clears => cases hplain
  | @gets path =>
    obtain rfl : Path.normalizeLogical path = k := Option.some.inj (Request.isOn_iff.mp hon)
    cases hs
    refine ⟨_, .gets, ?_, .refl _ _⟩
    cases he : c.entry? (Path.normalizeLogical path) with
    | none =>
      rw [h.entry_eq_none he]
      exact .finished h .nothing
    | some id =>
      rw [h.entry_eq_some he]
      exact .finished h (hview he)

/-- A step that leaves all that there is of the key as it is leaves the caches mirrored. -/
lemma of_agrees (h : c.Mirrors k c') (hagrees : c.Agrees k d) (hext : c.Extends d)
    (hplaced : c.Placed) (hregistry : d.registry = c.registry)
    (hworkshop : ∃ begun host, d.workshop = { c.workshop with begun := begun, host := host }) :
    d.Mirrors k c' where
  registry := h.registry.trans hregistry.symm
  workshop := by
    obtain ⟨begun, host, hsame⟩ := h.workshop
    obtain ⟨begun', host', hsame'⟩ := hworkshop
    exact ⟨begun, host, by rw [hsame, hsame']⟩
  entry := by
    rw [h.entry, hagrees.entry]
    cases he : c.entry? k with
    | none => rfl
    | some id =>
      obtain ⟨v, hv, -⟩ := hplaced k id he
      rw [Option.map_some, Option.map_some, numberOf_eq_of_extends hext hv]
  slot := h.slot.trans hagrees.slot.symm
  views := by
    have hsame : d.viewsOf k = c.viewsOf k :=
      filter_eq_of_getElem?_iff fun id v hv => hagrees.view id v (by simpa using hv)
    rw [h.views, hsame]

end Cache.Mirrors

namespace Cache

variable {c : Cache} {t : FileTree} {who : Caller} {q : Request} {s : Stage} {o : Outcome}

/-- A move changes a workshop only in what it has begun and recorded. -/
theorem Move.workshop_eq (h : c.Move t who q s o) :
    ∃ begun host, (o.cache c).workshop = { c.workshop with begun := begun, host := host } := by
  cases h with
  | @fails _ key content | @makes _ key content =>
    obtain ⟨host, hmake⟩ := c.workshop.make_snd key content
    exact ⟨_, host, by simpa [Cache.make] using hmake⟩
  | _ => exact ⟨c.workshop.begun, c.workshop.host, by simp⟩

end Cache

/-- The second client makes those requests of the first that are about a key. -/
structure Client.Mirrors (c : Cache) (k : String) (cl cl' : Client) : Prop where
  todo : cl'.todo = cl.todo.filter (·.isOn k)
  here : ∀ q ∈ cl.todo.head?, q.isOn k → cl.stage.Mirrors c k cl'.stage
  elsewhere : (∀ q ∈ cl.todo.head?, ¬ q.isOn k) → cl'.stage = .start

/-- In the second machine there are those calls of the first that are about a key. -/
structure Machine.Mirrors (k : String) (m m' : Machine) : Prop where
  files : m'.files = m.files
  cache : m.cache.Mirrors k m'.cache
  length : m'.clients.length = m.clients.length
  clients : ∀ (who : Caller) (cl cl' : Client), m.clients[who]? = some cl →
    m'.clients[who]? = some cl' → cl.Mirrors m.cache k cl'

namespace Client.Mirrors

variable {c d : Cache} {k : String} {cl cl' : Client}

lemma of_start (hstage : cl.stage = .start) (hstage' : cl'.stage = .start)
    (htodo : cl'.todo = cl.todo.filter (·.isOn k)) : cl.Mirrors c k cl' where
  todo := htodo
  here := fun _ _ _ => by
    rw [hstage, hstage']
    exact .start
  elsewhere := fun _ => hstage'

lemma mono (h : cl.Mirrors c k cl') (hext : c.Extends d) : cl.Mirrors d k cl' :=
  ⟨h.todo, fun q hq hon => (h.here q hq hon).mono hext, h.elsewhere⟩

end Client.Mirrors

/-- A step of the call of a client is a step of the client. -/
lemma Machine.exists_client_of_advance {m m₁ : Machine} {who : Caller} {q : Request} {s : Stage}
    (hact : m.act (.advance who) = some m₁) (hcall : m.call? who = some (q, s)) :
    ∃ cl rest cl₁ c₁, m.clients[who]? = some cl ∧ cl.todo = q :: rest ∧ cl.stage = s ∧
      m₁ = { m with cache := c₁, clients := m.clients.set who cl₁ } ∧
      ((∃ s₁, m.cache.step m.files who q s = .going s₁ c₁ ∧ cl₁ = { cl with stage := s₁ }) ∨
        ∃ a, m.cache.step m.files who q s = .finished a c₁ ∧
          cl₁ = ⟨rest, .start, cl.answers ++ [a]⟩) := by
  obtain ⟨cl, cl₁, c₁, hcl, hadv, rfl⟩ := act_advance_eq_some hact
  obtain ⟨q₀, rest, htodo, hcases⟩ := Client.advance_eq_some hadv
  obtain ⟨cl₀, rest₀, hcl₀, htodo₀, rfl⟩ := call?_eq_some_iff.mp hcall
  obtain rfl := Option.some.inj (hcl₀.symm.trans hcl)
  obtain ⟨rfl, rfl⟩ := List.cons.inj (htodo.symm.trans htodo₀)
  exact ⟨cl₀, rest, cl₁, c₁, hcl, htodo, rfl, rfl, hcases⟩

namespace Machine.Mirrors

variable {m m' m₁ : Machine} {k : String} {who : Caller} {q : Request} {s s' : Stage}

/-- The call of a client that is about the key is at the same stage in both machines. -/
lemma exists_call? (h : m.Mirrors k m') (hcall : m.call? who = some (q, s)) (hon : q.isOn k) :
    ∃ s', m'.call? who = some (q, s') ∧ s.Mirrors m.cache k s' := by
  obtain ⟨cl, rest, hcl, htodo, rfl⟩ := call?_eq_some_iff.mp hcall
  have hlt : who < m'.clients.length := h.length ▸ (List.getElem?_eq_some_iff.mp hcl).1
  have hcl' := List.getElem?_eq_getElem hlt
  have hmirrors := h.clients who cl _ hcl hcl'
  refine ⟨_, call?_eq_some_iff.mpr ⟨_, rest.filter (·.isOn k), hcl', ?_, rfl⟩,
    hmirrors.here q (by simp [htodo]) hon⟩
  rw [hmirrors.todo, htodo, List.filter_cons_of_pos hon]

lemma clients_set (h : m.Mirrors k m') {c : Cache} (hext : m.cache.Extends c) {cl cl' : Client}
    (hcl : cl.Mirrors c k cl') (w : Caller) (d d' : Client)
    (hd : (m.clients.set who cl)[w]? = some d) (hd' : (m'.clients.set who cl')[w]? = some d') :
    d.Mirrors c k d' := by
  rw [List.getElem?_set] at hd hd'
  by_cases hw : who = w
  · rw [if_pos hw] at hd hd'
    split at hd <;> cases hd
    split at hd' <;> cases hd'
    exact hcl
  · rw [if_neg hw] at hd hd'
    exact (h.clients w d d' hd hd').mono hext

/-- Of a call that comes, those requests come that are about the key. -/
lemma call (h : m.Mirrors k m') (requests : List Request) :
    Mirrors k { m with clients := m.clients ++ [{ todo := requests }] }
      { m' with clients := m'.clients ++ [{ todo := requests.filter (·.isOn k) }] } where
  files := h.files
  cache := h.cache
  length := by simp [h.length]
  clients := by
    intro w cl cl' hcl hcl'
    rcases getElem?_call hcl with hcl | ⟨hnone, rfl⟩
    · have hlt : w < m'.clients.length := h.length ▸ (List.getElem?_eq_some_iff.mp hcl).1
      exact h.clients w cl cl' hcl (by rwa [List.getElem?_append_left hlt] at hcl')
    · rcases getElem?_call hcl' with hsome | ⟨-, rfl⟩
      · have hlt : w < m.clients.length := h.length ▸ (List.getElem?_eq_some_iff.mp hsome).1
        exact absurd hnone (by simp [hlt])
      · exact .of_start rfl rfl rfl

/-- A step of a call on the key is taken in both machines. -/
theorem advance (h : m.Mirrors k m') (hact : m.act (.advance who) = some m₁)
    (hcall : m.call? who = some (q, s)) (hon : q.isOn k) (hext : m.cache.Extends m₁.cache)
    (hcall' : m'.call? who = some (q, s'))
    (ho : (m.cache.step m.files who q s).Mirrors k (m'.cache.step m'.files who q s')) :
    ∃ m₁', m'.act (.advance who) = some m₁' ∧ m₁.Mirrors k m₁' := by
  obtain ⟨cl, rest, cl₁, c₁, hcl, htodo, rfl, rfl, hcases⟩ := exists_client_of_advance hact hcall
  obtain ⟨cl', rest', hcl', htodo', rfl⟩ := call?_eq_some_iff.mp hcall'
  have htodos := (h.clients who cl cl' hcl hcl').todo
  rw [htodo, htodo', List.filter_cons_of_pos hon] at htodos
  have hrest := (List.cons.inj htodos).2
  generalize hstep' : m'.cache.step m'.files who q cl'.stage = o' at ho
  rcases hcases with ⟨s₁, hstep, rfl⟩ | ⟨a, hstep, rfl⟩
  · rw [hstep] at ho
    cases ho with
    | @going _ c₁' _ s₁' hcache hstage =>
      refine ⟨{ m' with cache := c₁', clients := m'.clients.set who { cl' with stage := s₁' } },
        by simp [act, hcl', Client.advance, htodo', hstep'], h.files, hcache, by simp [h.length],
        h.clients_set hext ⟨?_, fun _ _ _ => hstage, fun hno => ?_⟩⟩
      · simp [htodo, htodo', hon, hrest]
      · exact absurd hon (hno q (by simp [htodo]))
  · rw [hstep] at ho
    cases ho with
    | @finished _ c₁' _ a' hcache _ =>
      exact ⟨{ m' with
          cache := c₁'
          clients := m'.clients.set who ⟨rest', .start, cl'.answers ++ [a']⟩ },
        by simp [act, hcl', Client.advance, htodo', hstep'], h.files, hcache, by simp [h.length],
        h.clients_set hext (.of_start rfl rfl hrest)⟩

/-- A step of a call on another key leaves the machines mirrored. -/
theorem advance_elsewhere (h : m.Mirrors k m') (hact : m.act (.advance who) = some m₁)
    (hcall : m.call? who = some (q, s)) (hon : ¬ q.isOn k) (hext : m.cache.Extends m₁.cache)
    (hcache : m₁.cache.Mirrors k m'.cache) : m₁.Mirrors k m' := by
  obtain ⟨cl, rest, cl₁, c₁, hcl, htodo, rfl, rfl, hcases⟩ := exists_client_of_advance hact hcall
  refine ⟨h.files, hcache, by simpa using h.length, fun w d d' hd hd' => ?_⟩
  rw [List.getElem?_set] at hd
  by_cases hw : who = w
  · subst hw
    have hmirrors := h.clients who cl d' hcl hd'
    have hstage' := hmirrors.elsewhere (by simpa [htodo] using hon)
    have htodo' := hmirrors.todo
    rw [if_pos rfl] at hd
    split at hd <;> cases hd
    rcases hcases with ⟨s₁, -, rfl⟩ | ⟨a, -, rfl⟩
    · exact ⟨htodo', fun q hq hon' => absurd hon' (by simp_all), fun _ => hstage'⟩
    · rw [htodo, List.filter_cons_of_neg hon] at htodo'
      exact .of_start rfl hstage' htodo'
  · rw [if_neg hw] at hd
    exact (h.clients w d d' hd hd').mono hext

end Machine.Mirrors

end CompiledViews
