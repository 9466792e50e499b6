import CompiledViews.Proofs.Cache.Snapshots

/-!
The cache refines the snapshot map. An entry is the number of the snapshot that its path is mapped
to, and the view of a snapshot is released exactly when the snapshot is not mapped any more. Every
call that has the cache for itself keeps it that way, and is answered as the map answers it.
-/

namespace CompiledViews

/-- A view was built from a snapshot, and has been released once if the snapshot is not mapped. -/
structure SnapshotMap.Shows (a : SnapshotMap) (s : Snapshot) (v : View) : Prop where
  path : v.path = s.path
  name : v.module.name = s.module
  built : a.recipe.build s.module s.content = .ok v.module.nodes
  refusals : v.module.refusals = 0
  kept : a.Maps s → v.released = false ∧ v.module.requests = 0
  gone : ¬ a.Maps s → v.released = true ∧ v.module.requests = 1

/-- A cache holds what the snapshot map says. -/
structure Refines (c : Cache) (a : SnapshotMap) : Prop where
  registry : c.registry = a.registry
  tools : c.workshop.tools = .standard a.recipe.generation a.recipe.references
  nameOf : c.workshop.nameOf = a.nameOf
  begun : c.workshop.begun = a.begun
  entries : ∀ key, c.entry? key = (a.mapped.get? key).map (·.id)
  size : c.size = a.mapped.size
  mapped : ∀ (key : String) (s : Snapshot), a.mapped.get? key = some s →
    s.path = key ∧ a.issued[s.id]? = some s
  known : ∀ (key : String) (s : Snapshot), a.mapped.get? key = some s → a.registry.contains key
  issued : ∀ (id : Nat) (s : Snapshot), a.issued[id]? = some s → s.id = id
  length : c.views.length = a.issued.length
  views : ∀ (id : Nat) (s : Snapshot), a.issued[id]? = some s →
    ∃ v, c.views[id]? = some v ∧ a.Shows s v

namespace SnapshotMap

variable {a : SnapshotMap} {s s' : Snapshot} {v : View} {key : String}

lemma maps_of_get? (hs : s.path = key) (h : a.mapped.get? key = some s) : a.Maps s := by
  rw [Maps, hs, h]
  rfl

lemma Shows.of_maps_iff {a' : SnapshotMap} (h : a.Shows s v) (hrecipe : a'.recipe = a.recipe)
    (hmaps : a'.Maps s ↔ a.Maps s) : a'.Shows s v :=
  ⟨h.path, h.name, hrecipe ▸ h.built, h.refusals, fun hm => h.kept (hmaps.mp hm),
    fun hm => h.gone (mt hmaps.mpr hm)⟩

/-- The view of a snapshot that is unmapped is released. -/
lemma Shows.release {a' : SnapshotMap} (h : a.Shows s v) (hrecipe : a'.recipe = a.recipe)
    (hmaps : a.Maps s) (hmaps' : ¬ a'.Maps s) : a'.Shows s v.release := by
  obtain ⟨hreleased, hrequests⟩ := h.kept hmaps
  have hrelease : v.release = { v with released := true, module := v.module.release } := by
    simp [View.release, hreleased]
  rw [hrelease]
  exact ⟨h.path, h.name, hrecipe ▸ h.built, h.refusals, fun hm => absurd hm hmaps', fun _ =>
    ⟨rfl, congrArg (· + 1) hrequests⟩⟩

/-- A view renders what was built from its snapshot as long as the snapshot is mapped. -/
lemma Shows.render (h : a.Shows s v) (model : Json) : v.render model =
    if a.Maps s then
      (Template.render s.module v.module.nodes model).mapError fun f => .template (f.text s.module)
    else .error (.released s.module) := by
  rw [View.render, ← h.name]
  split
  case isTrue hmaps =>
    exact Module.render_of_not_released (by simp [Module.released, (h.kept hmaps).2]) model
  case isFalse hmaps =>
    refine Module.render_of_released ?_ model
    simp [Module.released, h.refusals, (h.gone hmaps).2]

end SnapshotMap

namespace Refines

variable {c c' : Cache} {a : SnapshotMap} {t : FileTree} {key : String} {q : Request} {n : ℕ}
  {s : Snapshot} {v : View}

/-- Slots and counts are no business of the map. -/
lemma of_same (h : Refines c a) (hregistry : c'.registry = c.registry)
    (hworkshop : c'.workshop = c.workshop) (hviews : c'.views = c.views)
    (hentries : ∀ k, c'.entry? k = c.entry? k) (hsize : c'.size = c.size) : Refines c' a where
  registry := hregistry ▸ h.registry
  tools := hworkshop ▸ h.tools
  nameOf := hworkshop ▸ h.nameOf
  begun := hworkshop ▸ h.begun
  entries := fun k => (hentries k).trans (h.entries k)
  size := hsize.trans h.size
  mapped := h.mapped
  known := h.known
  issued := h.issued
  length := hviews ▸ h.length
  views := by simpa only [hviews] using h.views

lemma count (h : Refines c a) (f : Counts → Counts) : Refines (c.count f) a :=
  h.of_same rfl rfl rfl (fun _ => rfl) rfl

lemma askSlot (h : Refines c a) (key : String) : Refines (c.askSlot key) a :=
  h.of_same (by simp) (by simp) (by simp) (by simp) (by simp)

lemma takeSlot (h : Refines c a) (key : String) (who : Caller) : Refines (c.takeSlot key who) a :=
  h.of_same rfl rfl rfl (fun _ => rfl) rfl

lemma freeSlot (h : Refines c a) (key : String) : Refines (c.freeSlot key) a :=
  h.of_same rfl rfl rfl (fun _ => rfl) rfl

lemma entry?_of_mapped (h : Refines c a) (hs : a.mapped.get? key = some s) :
    c.entry? key = some s.id := by
  rw [h.entries, hs, Option.map_some]

lemma entry?_of_unmapped (h : Refines c a) (hs : a.mapped.get? key = none) :
    c.entry? key = none := by
  rw [h.entries, hs, Option.map_none]

theorem renderFound_eq (h : Refines c a) (id : Nat) (model : Json) :
    c.renderFound id model = a.render id model := by
  cases hs : a.issued[id]? with
  | none =>
    have hnone : c.views[id]? = none := by
      rw [List.getElem?_eq_none_iff, h.length]
      exact List.getElem?_eq_none_iff.mp hs
    simp only [Cache.renderFound, SnapshotMap.render, hnone, hs]
  | some s =>
    obtain ⟨v, hv, hshows⟩ := h.views id s hs
    simp only [Cache.renderFound, SnapshotMap.render, SnapshotMap.renderSnapshot, hv, hs,
      hshows.render, hshows.path, hshows.built]
    by_cases hmaps : a.Maps s
    · rw [if_pos hmaps, if_pos hmaps]
      cases Template.render s.module v.module.nodes model <;> rfl
    · rw [if_neg hmaps, if_neg hmaps]

/-- Of the snapshots that are not at the key, erasing it changes nothing. -/
lemma maps_erase_iff (h : Refines c a) (hs : a.mapped.get? key = some s) {s' : Snapshot} :
    SnapshotMap.Maps { a with mapped := a.mapped.erase key } s' ↔ a.Maps s' ∧ s'.id ≠ s.id := by
  rw [SnapshotMap.Maps, SnapshotMap.Maps, Table.get?_erase]
  by_cases hkey : s'.path = key
  · simp [hkey, hs, eq_comm]
  · rw [if_neg hkey, iff_self_and]
    intro hmaps hid
    obtain ⟨s'', hs'', hid'⟩ := Option.map_eq_some_iff.mp hmaps
    have hsame : some s'' = some s := by
      rw [← (h.mapped _ _ hs'').2, ← (h.mapped _ _ hs).2, hid', hid]
    obtain rfl := Option.some.inj hsame
    exact hkey ((h.mapped _ _ hs'').1.symm.trans (h.mapped _ _ hs).1)

/-- Taking an entry out unmaps its path. -/
theorem evict (h : Refines c a) (hs : a.mapped.get? key = some s) :
    Refines (c.evict key).2 { a with mapped := a.mapped.erase key } := by
  have hentry := h.entry?_of_mapped hs
  have hsize := c.size_evict key _ hentry
  have hsize' := Table.size_erase hs
  have herase : ∀ k s', (a.mapped.erase key).get? k = some s' → a.mapped.get? k = some s' := by
    intro k s' hk
    rw [Table.get?_erase] at hk
    split at hk
    · cases hk
    · exact hk
  refine ⟨by simpa using h.registry, by simpa using h.tools, by simpa using h.nameOf,
    by simpa using h.begun, fun k => ?_, ?_, fun k s' hk => h.mapped k s' (herase k s' hk),
    fun k s' hk => h.known k s' (herase k s' hk), h.issued, ?_, fun id s' hid => ?_⟩
  · rw [Cache.entry?_evict, Table.get?_erase]
    split
    · rfl
    · exact h.entries k
  · have := h.size
    dsimp only
    omega
  · rw [Cache.views_evict _ _ _ hentry, List.length_modify, h.length]
  · obtain ⟨v, hv, hshows⟩ := h.views id s' hid
    have hmaps : SnapshotMap.Maps _ s' ↔ _ := h.maps_erase_iff hs
    rw [Cache.views_evict _ _ _ hentry, List.getElem?_modify, hv]
    by_cases heq : s.id = id
    · subst heq
      obtain rfl : s = s' := Option.some.inj ((h.mapped _ _ hs).2.symm.trans hid)
      refine ⟨v.release, by simp, hshows.release rfl ?_ ?_⟩
      · exact SnapshotMap.maps_of_get? (h.mapped _ _ hs).1 hs
      · simp [hmaps]
    · refine ⟨v, by simp [heq], hshows.of_maps_iff rfl ?_⟩
      rw [hmaps, and_iff_left]
      rw [h.issued id s' hid]
      exact Ne.symm heq

/-- Taking all entries out unmaps all paths. -/
theorem clear (h : Refines c a) : Refines c.clear.2 { a with mapped := {} } := by
  refine ⟨by simpa using h.registry, by simpa using h.tools, by simpa using h.nameOf,
    by simpa using h.begun, by simp, c.size_clear, by simp, by simp, h.issued,
    by simpa using h.length, fun id s hid => ?_⟩
  obtain ⟨v, hv, hshows⟩ := h.views id s hid
  have hnot : ¬ SnapshotMap.Maps { a with mapped := {} } s := by simp [SnapshotMap.Maps]
  rw [Cache.getElem?_clear, hv, Option.map_some]
  by_cases hmaps : a.Maps s
  · have hmem : id ∈ c.entries.values := by
      refine (Cache.mem_values_iff c id).mpr ⟨s.path, ?_⟩
      rw [h.entries, hmaps, h.issued id s hid]
    rw [if_pos hmem]
    exact ⟨_, rfl, hshows.release rfl hmaps hnot⟩
  · have hmem : id ∉ c.entries.values := by
      intro hmem
      obtain ⟨key, hentry⟩ := (Cache.mem_values_iff c id).mp hmem
      rw [h.entries] at hentry
      obtain ⟨s', hs', rfl⟩ := Option.map_eq_some_iff.mp hentry
      obtain rfl : s' = s := Option.some.inj ((h.mapped _ _ hs').2.symm.trans hid)
      exact hmaps (SnapshotMap.maps_of_get? (h.mapped _ _ hs').1 hs')
    rw [if_neg hmem]
    exact ⟨_, rfl, hshows.of_maps_iff rfl (iff_of_false hnot hmaps)⟩

/-- Of the snapshots that there are, mapping another key to a new one changes nothing. -/
lemma maps_insert_iff (hnone : a.mapped.get? key = none) (hid : s.id = a.issued.length)
    {s' : Snapshot} (hs' : a.issued[s'.id]? = some s') :
    SnapshotMap.Maps { a with mapped := a.mapped.insert key s } s' ↔ a.Maps s' := by
  have hlt : s'.id < a.issued.length := (List.getElem?_eq_some_iff.mp hs').1
  rw [SnapshotMap.Maps, SnapshotMap.Maps, Table.get?_insert]
  by_cases hkey : s'.path = key
  · -- nothing was mapped at the key, and the new snapshot has another number
    simp [hkey, hnone, hid]
    omega
  · rw [if_neg hkey]

/-- A snapshot that has been issued was so before, or is the new one. -/
lemma issued_cases {id : ℕ} {s' : Snapshot} (h : (a.issued ++ [s])[id]? = some s') :
    a.issued[id]? = some s' ∨ id = a.issued.length ∧ s' = s := by
  rcases Nat.lt_trichotomy id a.issued.length with hlt | rfl | hgt
  · rw [List.getElem?_append_left hlt] at h
    exact .inl h
  · exact .inr ⟨rfl, by simpa using h.symm⟩
  · rw [List.getElem?_eq_none (by simp; omega)] at h
    cases h

/-- Storing a view maps its path to what it was built from. -/
theorem store (h : Refines c a) (hnone : a.mapped.get? key = none)
    (hknown : a.registry.contains key) (hid : s.id = a.issued.length) (hpath : s.path = key)
    (hshows : SnapshotMap.Shows { a with mapped := a.mapped.insert key s } s v) :
    Refines (c.store key v).2
      { a with issued := a.issued ++ [s], mapped := a.mapped.insert key s } := by
  have hentry := h.entry?_of_unmapped hnone
  have hviews := c.views_store key v hentry
  have hkeep : ∀ id s', a.issued[id]? = some s' → (a.issued ++ [s])[id]? = some s' :=
    fun id s' hs' => by
      rwa [List.getElem?_append_left (List.getElem?_eq_some_iff.mp hs').1]
  refine ⟨by simpa using h.registry, by simpa using h.tools, by simpa using h.nameOf,
    by simpa using h.begun, fun k => ?_, ?_, fun k s' hk => ?_, fun k s' hk => ?_,
    fun id s' hs' => ?_, by simp [hviews, h.length], fun id s' hs' => ?_⟩
  · rw [Cache.entry?_store, Table.get?_insert]
    split
    · rw [h.length, ← hid, Option.map_some]
    · exact h.entries k
  · rw [Cache.size_store _ _ _ hentry, h.size]
    exact (Table.size_insert hnone s).symm
  · rw [Table.get?_insert] at hk
    split at hk
    case isTrue hkey =>
      cases hk
      exact ⟨hpath.trans hkey.symm, by simp [hid]⟩
    case isFalse => exact ⟨(h.mapped k s' hk).1, hkeep _ _ (h.mapped k s' hk).2⟩
  · rw [Table.get?_insert] at hk
    split at hk
    case isTrue hkey =>
      rw [hkey]
      exact hknown
    case isFalse => exact h.known k s' hk
  · rcases issued_cases hs' with hs' | ⟨rfl, rfl⟩
    · exact h.issued id s' hs'
    · exact hid
  · rw [hviews]
    rcases issued_cases hs' with hs' | ⟨rfl, rfl⟩
    · obtain ⟨v', hv', hshows'⟩ := h.views id s' hs'
      obtain rfl := h.issued id s' hs'
      refine ⟨v', ?_, hshows'.of_maps_iff rfl (maps_insert_iff hnone hid hs')⟩
      rwa [List.getElem?_append_left (List.getElem?_eq_some_iff.mp hv').1]
    · exact ⟨v, by simp [h.length], hshows.of_maps_iff rfl Iff.rfl⟩

/-- A module is begun, whatever comes of it. -/
lemma begin_ (h : Refines c a) (host : Host) :
    Refines
      { c with workshop := { c.workshop with begun := c.workshop.begun + 1, host := host } }
      { a with begun := a.begun + 1 } where
  registry := h.registry
  tools := h.tools
  nameOf := h.nameOf
  begun := congrArg (· + 1) h.begun
  entries := h.entries
  size := h.size
  mapped := h.mapped
  known := h.known
  issued := h.issued
  length := h.length
  views := fun id s hid => by
    obtain ⟨v, hv, hshows⟩ := h.views id s hid
    exact ⟨v, hv, hshows.of_maps_iff rfl Iff.rfl⟩

/-- A compile comes to the same on both sides. -/
theorem rebuild (h : Refines c a) (hnone : a.mapped.get? key = none) :
    (c.rebuild t key).1 = (a.compile t key).1 ∧
      Refines (c.rebuild t key).2 (a.compile t key).2 := by
  cases hsource : a.registry.lookup key with
  | none =>
    have hopen : c.openSource t key = .error ⟨key, .unknownSource⟩ := by
      simp only [Cache.openSource, h.registry, hsource]
    rw [Cache.rebuild_of_unopened hopen]
    simp only [SnapshotMap.compile, hsource, true_and]
    exact h.count _
  | some source =>
    cases hcontent : source.open_ t with
    | error e =>
      have hopen : c.openSource t key = .error ⟨key, .unreadable e.message⟩ := by
        simp only [Cache.openSource, h.registry, hsource, hcontent, Except.mapError]
      rw [Cache.rebuild_of_unopened hopen]
      simp only [SnapshotMap.compile, hsource, hcontent, true_and]
      exact h.count _
    | ok content =>
      have hopen : c.openSource t key = .ok content := by
        simp only [Cache.openSource, h.registry, hsource, hcontent, Except.mapError]
      have hmodule : c.workshop.nameOf (c.workshop.begun + 1) = a.nameOf (a.begun + 1) := by
        rw [h.nameOf, h.begun]
      cases hbuild : a.recipe.build (a.nameOf (a.begun + 1)) content with
      | error cause =>
        have hmake := Workshop.make_of_build_error key h.tools (hmodule ▸ hbuild)
        rw [Cache.rebuild_of_failed hopen (by rw [Cache.make, hmake])]
        simp only [SnapshotMap.compile, hsource, hcontent, hbuild, true_and]
        exact (h.begin_ c.workshop.host).count _
      | ok nodes =>
        obtain ⟨m, host, hname, hmake⟩ :=
          Workshop.make_of_build_ok key h.tools (hmodule ▸ hbuild)
        rw [Cache.rebuild_of_made hopen (by rw [Cache.make, hmake])]
        simp only [SnapshotMap.compile, hsource, hcontent, hbuild]
        refine ⟨?_, ((h.begin_ host).count _).store hnone ?_ rfl rfl ?_⟩
        · rw [Cache.store_fst]
          exact congrArg Answer.view h.length
        · simp [Registry.contains, hsource]
        · exact ⟨rfl, hname.trans hmodule, hbuild, rfl, fun _ => ⟨rfl, rfl⟩, fun hnot =>
            (hnot (SnapshotMap.maps_of_get? rfl (Table.get?_insert_self ..))).elim⟩

end Refines

end CompiledViews
