import CompiledViews.Proofs.Cache.Scripts
import CompiledViews.Proofs.Module.Names

/-!
Verdicts. As long as the sources do not change, all that a path is ever compiled to is the same,
whatever has been looked up before, and a path that compiles is compiled once.
-/

namespace CompiledViews

/-- Whether an error was found in a content, for which a module had been begun. -/
def ViewError.Cause.isFault : ViewError.Cause → Bool
  | .translation _ | .compilation _ _ | .notLoaded _ => true
  | .unknownSource | .unreadable _ | .notRendered _ | .brokenOff _ => false

/-- Whether an answer tells that a content is faulty. -/
def Answer.isFault : Answer → Bool
  | .error e => e.cause.isFault
  | _ => false

/-- What cannot be built is at fault. -/
lemma Recipe.isFault_of_build {r : Recipe} {name : String} {content : Content}
    {cause : ViewError.Cause} (h : r.build name content = .error cause) : cause.isFault := by
  cases htranslate : translate r.generation name content with
  | error ds =>
    simp only [build, htranslate] at h
    cases h
    rfl
  | ok m =>
    cases hcompile : compile r.references name m.code with
    | error e =>
      simp only [build, htranslate, hcompile] at h
      cases h
      rfl
    | ok m' =>
      cases hparse : Template.parse m'.body with
      | error f =>
        simp only [build, htranslate, hcompile, hparse, Except.mapError] at h
        cases h
        rfl
      | ok nodes => simp [build, htranslate, hcompile, hparse, Except.mapError] at h

namespace SnapshotMap

variable {a a' : SnapshotMap} {t : FileTree} {key name name' : String}

/-- What a path is compiled to as a module of some name. -/
def verdict (a : SnapshotMap) (t : FileTree) (name key : String) :
    Except ViewError (List Template.Node) :=
  match a.registry.lookup key with
  | none => .error ⟨key, .unknownSource⟩
  | some source =>
    match source.open_ t with
    | .error e => .error ⟨key, .unreadable e.message⟩
    | .ok content => (a.recipe.build name content).mapError (⟨key, ·⟩)

lemma verdict_of_opened {source : Source} {content : Content}
    (hsource : a.registry.lookup key = some source) (hopen : source.open_ t = .ok content) :
    a.verdict t name key = (a.recipe.build name content).mapError (⟨key, ·⟩) := by
  rw [verdict, hsource]
  simp only [hopen]

/-- A map of the same project, of which more may have been looked up. -/
structure Extends (a a' : SnapshotMap) : Prop where
  registry : a'.registry = a.registry
  recipe : a'.recipe = a.recipe
  nameOf : a'.nameOf = a.nameOf
  mapped : ∀ key s, a.mapped.get? key = some s → a'.mapped.get? key = some s

lemma Extends.refl (a : SnapshotMap) : a.Extends a := ⟨rfl, rfl, rfl, fun _ _ h => h⟩

lemma Extends.trans {a'' : SnapshotMap} (h : a.Extends a') (h' : a'.Extends a'') : a.Extends a'' :=
  ⟨h'.registry.trans h.registry, h'.recipe.trans h.recipe, h'.nameOf.trans h.nameOf,
    fun key s hget => h'.mapped key s (h.mapped key s hget)⟩

lemma extends_insert (a : SnapshotMap) (hnone : a.mapped.get? key = none) (n : ℕ)
    (issued : List Snapshot) (s : Snapshot) :
    a.Extends { a with begun := n, issued := issued, mapped := a.mapped.insert key s } where
  registry := rfl
  recipe := rfl
  nameOf := rfl
  mapped := by
    intro k s' hget
    have hne : k ≠ key := by
      rintro rfl
      rw [hnone] at hget
      cases hget
    rw [Table.get?_insert, if_neg hne, hget]

lemma Extends.verdict_eq (h : a.Extends a') (t : FileTree) (name key : String) :
    a'.verdict t name key = a.verdict t name key := by
  rw [verdict, h.registry, h.recipe]
  rfl

/-- A snapshot was taken of what its path yields, and is of no fault. -/
structure Holds (a : SnapshotMap) (t : FileTree) (s : Snapshot) : Prop where
  named : ∃ n, s.module = a.nameOf (n + 1)
  opened : ∃ source, a.registry.lookup s.path = some source ∧ source.open_ t = .ok s.content
  built : ∃ nodes, a.recipe.build s.module s.content = .ok nodes

/-- All that has been made was made of the sources as they are, and nothing was taken out since. -/
structure Current (a : SnapshotMap) (t : FileTree) : Prop where
  holds : ∀ s ∈ a.issued, a.Holds t s
  mapped : ∀ key s, a.mapped.get? key = some s → s.path = key ∧ a.issued[s.id]? = some s
  kept : ∀ s ∈ a.issued, a.mapped.get? s.path = some s
  once : (a.issued.map (·.path)).Nodup

lemma Holds.verdict_eq {s : Snapshot} (h : a.Holds t s) :
    ∃ nodes, a.verdict t s.module s.path = .ok nodes := by
  obtain ⟨source, hsource, hopen⟩ := h.opened
  obtain ⟨nodes, hbuild⟩ := h.built
  exact ⟨nodes, by rw [verdict_of_opened hsource hopen, hbuild, Except.mapError]⟩

lemma Holds.mono {s : Snapshot} (h : a.Holds t s) (hext : a.Extends a') : a'.Holds t s where
  named := by simpa only [hext.nameOf] using h.named
  opened := by simpa only [hext.registry] using h.opened
  built := by simpa only [hext.recipe] using h.built

/-- An answer to a lookup says what the verdict is: there is a view, which the path is mapped to, or
an error. -/
inductive Says (a : SnapshotMap) (key : String) :
    Except ViewError (List Template.Node) → Answer → Prop
  | view {s : Snapshot} (nodes : List Template.Node) :
      a.mapped.get? key = some s → Says a key (.ok nodes) (.view s.id)
  | error (e : ViewError) : Says a key (.error e) (.error e)

/-- What is said of a path is said for good. -/
lemma Says.mono {x : Except ViewError (List Template.Node)} {answer : Answer}
    (h : a.Says key x answer) (hext : a.Extends a') : a'.Says key x answer := by
  cases h with
  | view nodes hget => exact .view nodes (hext.mapped _ _ hget)
  | error e => exact .error e

namespace Current

/-- Nothing has been looked up at first. -/
lemma empty (registry : Registry) (r : Recipe) (nameOf : ℕ → String) (begun : ℕ) (t : FileTree) :
    Current { registry := registry, recipe := r, nameOf := nameOf, begun := begun } t where
  holds := by simp
  mapped := by simp
  kept := by simp
  once := by simp

lemma begin (h : a.Current t) (n : ℕ) : Current { a with begun := n } t :=
  ⟨fun s hs => (h.holds s hs).mono ⟨rfl, rfl, rfl, fun _ _ h => h⟩, h.mapped, h.kept, h.once⟩

/-- A path that is not mapped is mapped to a snapshot of what it yields. -/
lemma map {s : Snapshot} (h : a.Current t) (hnone : a.mapped.get? s.path = none)
    (hs : a.Holds t s) (hid : s.id = a.issued.length) :
    Current { a with issued := a.issued ++ [s], mapped := a.mapped.insert s.path s } t where
  holds := by
    intro s' hs'
    rcases List.mem_append.mp hs' with hs' | hs'
    · exact (h.holds s' hs').mono (extends_insert a hnone _ _ s)
    · obtain rfl := List.mem_singleton.mp hs'
      exact hs.mono (extends_insert a hnone _ _ s')
  mapped := by
    intro key s' hget
    rw [Table.get?_insert] at hget
    split at hget
    case isTrue hkey =>
      obtain rfl := Option.some.inj hget
      exact ⟨hkey.symm, by simp [hid]⟩
    case isFalse =>
      obtain ⟨hpath, hissued⟩ := h.mapped key s' hget
      refine ⟨hpath, ?_⟩
      rw [List.getElem?_append_left (List.getElem?_eq_some_iff.mp hissued).1, hissued]
  kept := by
    intro s' hs'
    rw [Table.get?_insert]
    rcases List.mem_append.mp hs' with hs' | hs'
    · have hkept := h.kept s' hs'
      have hne : s'.path ≠ s.path := by
        intro heq
        rw [heq, hnone] at hkept
        cases hkept
      rw [if_neg hne, hkept]
    · rw [List.mem_singleton.mp hs', if_pos rfl]
  once := by
    rw [List.map_append, List.map_singleton, List.nodup_append]
    refine ⟨h.once, by simp, fun path hpath path' hpath' heq => ?_⟩
    obtain ⟨s', hs', rfl⟩ := List.mem_map.mp hpath
    have hkept := h.kept s' hs'
    rw [heq, List.mem_singleton.mp hpath', hnone] at hkept
    cases hkept

/-- A lookup says what the verdict is, and leaves a map that is current. As many modules are begun
as views are made and faults are found. -/
theorem lookup (h : a.Current t) (key : String) :
    (a.lookup t key).2.Current t ∧ a.Extends (a.lookup t key).2 ∧
      (∃ n, (a.lookup t key).2.Says key (a.verdict t (a.nameOf (n + 1)) key) (a.lookup t key).1) ∧
      (a.lookup t key).2.begun + a.issued.length = a.begun + (a.lookup t key).2.issued.length +
        (a.lookup t key).1.isFault.toNat := by
  unfold SnapshotMap.lookup
  cases hget : a.mapped.get? key with
  | some s =>
    obtain ⟨rfl, hissued⟩ := h.mapped key s hget
    have hholds := h.holds s (List.mem_of_getElem? hissued)
    obtain ⟨n, hname⟩ := hholds.named
    obtain ⟨nodes, hverdict⟩ := hholds.verdict_eq
    exact ⟨h, .refl a, ⟨n, by rw [← hname, hverdict]; exact .view nodes hget⟩, rfl⟩
  | none =>
    simp only [SnapshotMap.compile]
    cases hsource : a.registry.lookup key with
    | none =>
      refine ⟨h, .refl a, ⟨0, ?_⟩, rfl⟩
      rw [verdict, hsource]
      exact .error _
    | some source =>
      cases hopen : source.open_ t with
      | error e =>
        simp only [hopen]
        refine ⟨h, .refl a, ⟨0, ?_⟩, rfl⟩
        rw [verdict, hsource]
        simp only [hopen]
        exact .error _
      | ok content =>
        simp only [hopen]
        have hverdict : a.verdict t (a.nameOf (a.begun + 1)) key = _ :=
          verdict_of_opened hsource hopen
        cases hbuild : a.recipe.build (a.nameOf (a.begun + 1)) content with
        | error cause =>
          rw [hbuild, Except.mapError] at hverdict
          refine ⟨h.begin _, ⟨rfl, rfl, rfl, fun _ _ h => h⟩, ⟨a.begun, hverdict ▸ .error _⟩, ?_⟩
          rw [Answer.isFault, Recipe.isFault_of_build hbuild, Bool.toNat_true]
          exact Nat.add_right_comm ..
        | ok nodes =>
          rw [hbuild, Except.mapError] at hverdict
          let s : Snapshot := ⟨a.issued.length, key, a.nameOf (a.begun + 1), content⟩
          have hs : Holds { a with begun := a.begun + 1 } t s :=
            ⟨⟨a.begun, rfl⟩, ⟨source, hsource, hopen⟩, ⟨nodes, hbuild⟩⟩
          refine ⟨(h.begin (a.begun + 1)).map (s := s) hget hs rfl,
            extends_insert a hget _ _ s,
            ⟨a.begun, hverdict ▸ .view (s := s) nodes (Table.get?_insert_self ..)⟩, ?_⟩
          simp only [List.length_append, List.length_singleton, Answer.isFault, Bool.toNat_false]
          omega

/-- Looking up paths says what the verdict on each of them is. -/
theorem warm (h : a.Current t) (paths : List String) :
    (a.warm t paths).2.Current t ∧ a.Extends (a.warm t paths).2 ∧
      (a.warm t paths).1.map (·.1) = paths.map Path.normalizeLogical ∧
      (∀ o ∈ (a.warm t paths).1,
        ∃ n, (a.warm t paths).2.Says o.1 (a.verdict t (a.nameOf (n + 1)) o.1) o.2) ∧
      (a.warm t paths).2.begun + a.issued.length = a.begun + (a.warm t paths).2.issued.length +
        (a.warm t paths).1.countP (·.2.isFault) := by
  induction paths generalizing a with
  | nil => exact ⟨h, .refl a, rfl, by simp [SnapshotMap.warm], rfl⟩
  | cons path rest ih =>
    obtain ⟨hcurrent, hext, ⟨n, hsaid⟩, hbegun⟩ := h.lookup (Path.normalizeLogical path)
    obtain ⟨hcurrent', hext', hkeys, hsaid', hbegun'⟩ := ih hcurrent
    simp only [SnapshotMap.warm]
    refine ⟨hcurrent', hext.trans hext', congrArg _ hkeys, ?_, ?_⟩
    · rw [List.forall_mem_cons]
      refine ⟨⟨n, hsaid.mono hext'⟩, fun o ho => ?_⟩
      obtain ⟨n', hsaid'⟩ := hsaid' o ho
      rw [hext.verdict_eq, hext.nameOf] at hsaid'
      exact ⟨n', hsaid'⟩
    · have hhead : ∀ b : Bool, (if b then 1 else 0) = b.toNat := by decide
      rw [List.countP_cons, hhead]
      dsimp only
      omega

end Current

end SnapshotMap

end CompiledViews
