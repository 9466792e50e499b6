import CompiledViews.Proofs.Cache.Refinement
import CompiledViews.Proofs.Path.Logical

/-!
Scripts. Whatever one user asks of an engine, with the files being edited meanwhile, is answered as
the snapshot map answers it.
-/

namespace CompiledViews

/-- A cache that nobody uses at the moment holds what the snapshot map says. -/
structure AtRest (c : Cache) (a : SnapshotMap) : Prop where
  refines : Refines c a
  free : ∀ key, c.holder? key = none

/-- A call that has the cache for itself comes to what the snapshot map says. -/
def Cache.ComesTo (t : FileTree) (q : Request) (s : Stage) (c : Cache) (n : ℕ)
    (r : Answer × SnapshotMap) : Prop :=
  ∃ c', Completes t q s c n r.1 c' ∧ AtRest c' r.2

lemma Cache.ComesTo.after {t : FileTree} {q : Request} {s s' : Stage} {c c' : Cache} {n m : ℕ}
    {r : Answer × SnapshotMap} (h : c'.ComesTo t q s' n r) (hstep : c.step t 0 q s = .going s' c')
    (hle : n < m) : c.ComesTo t q s m r := by
  obtain ⟨d, hcompletes, hrest⟩ := h
  exact ⟨d, (Completes.goes hstep hcompletes).mono hle, hrest⟩

lemma Cache.ComesTo.mono {t : FileTree} {q : Request} {s : Stage} {c : Cache} {n m : ℕ}
    {r : Answer × SnapshotMap} (h : c.ComesTo t q s n r) (hle : n ≤ m) : c.ComesTo t q s m r := by
  obtain ⟨d, hcompletes, hrest⟩ := h
  exact ⟨d, hcompletes.mono hle, hrest⟩

namespace AtRest

variable {c d : Cache} {a : SnapshotMap} {t : FileTree} {key : String} {q : Request} {s : Stage}

lemma answer_eq (h : Refines c a) (q : Request) (answer : Answer) :
    q.answer answer c = a.settle q answer := by
  cases q with
  | render path model =>
    cases answer with
    | view id => exact h.renderFound_eq id model
    | _ => rfl
  | _ => rfl

lemma comesTo_of_settle (h : AtRest d a) {answer : Answer}
    (hstep : c.step t 0 q s = q.settle answer d) : c.ComesTo t q s 2 (a.settle q answer, a) :=
  ⟨d, answer_eq h.refines q answer ▸ Cache.completes_of_settle hstep, h⟩

/-- A path that is not mapped is compiled once the slot is held. -/
lemma comesTo_compile (hc : AtRest c a) (hq : q.key? = some key) {evicted : Bool}
    (hnone : a.mapped.get? key = none) (hd : Refines d a)
    (hholder : ∀ k, d.holder? k = ((c.askSlot key).takeSlot key 0).holder? k)
    (hagain : q.again key evicted ((c.askSlot key).takeSlot key 0) = (.opening, d)) :
    (c.askSlot key).ComesTo t q (.waiting evicted) 7
      ((a.compile t key).2.settle q (a.compile t key).1, (a.compile t key).2) := by
  obtain ⟨hanswer, hrefines⟩ := hd.rebuild (t := t) hnone
  have hafter := hrefines.freeSlot key
  have hcompletes := Cache.completes_asking (t := t) hq (hc.free key) hagain
  rw [hanswer, answer_eq hafter] at hcompletes
  refine ⟨_, hcompletes, hafter, fun k => ?_⟩
  rw [Cache.holder?_freeSlot, Cache.holder?_rebuild, hholder, Cache.holder?_takeSlot,
    Cache.holder?_askSlot, hc.free]
  by_cases hk : k = key <;> simp [hk]

/-- A path without a source comes to that on both sides. -/
lemma compile_of_unknown (h : Refines c a) (hr : ¬ c.registry.contains key) :
    a.compile t key = (.error ⟨key, .unknownSource⟩, a) := by
  have hsource : a.registry.lookup key = none := by
    simpa [Registry.contains, h.registry] using hr
  simp only [SnapshotMap.compile, hsource]

lemma comesTo_lookup (h : AtRest c a) (hq : q.lookupKey? = some key) :
    c.ComesTo t q .start Cache.maxSteps (a.answer t q) := by
  have hstep : c.step t 0 q .start = _ := Cache.step_start_of_lookupKey? hq
  rw [SnapshotMap.answer_of_lookupKey? hq, SnapshotMap.lookup]
  cases hs : a.mapped.get? key with
  | some s =>
    have hentry := h.refines.entry?_of_mapped hs
    have hsettle : c.step t 0 q .start = q.settle (.view s.id) c.hit := by
      rw [hstep]
      simp [Cache.lookupStep, hentry, Cache.settled]
    exact (comesTo_of_settle ⟨h.refines.count _, h.free⟩ hsettle).mono (by decide)
  | none =>
    have hentry := h.refines.entry?_of_unmapped hs
    by_cases hr : c.registry.contains key
    · have hgoing : c.step t 0 q .start = .going (.waiting false) (c.askSlot key) := by
        rw [hstep]
        simp [Cache.lookupStep, hentry, Cache.approach, hr, Cache.settled]
      have hd : Refines ((c.askSlot key).takeSlot key 0).miss a :=
        ((h.refines.askSlot key).takeSlot key 0).count _
      refine (comesTo_compile h (Request.key?_of_lookupKey? hq) hs hd (fun _ => rfl) ?_).after
        hgoing (by decide)
      simp [Cache.again_of_lookupKey? hq, Cache.lookAgain, hentry]
    · have hsettle : c.step t 0 q .start = q.settle (.error ⟨key, .unknownSource⟩) c := by
        rw [hstep]
        simp [Cache.lookupStep, hentry, Cache.approach, hr, Cache.settled]
      simp only [compile_of_unknown h.refines hr]
      exact (comesTo_of_settle h hsettle).mono (by decide)

/-- A path that is mapped is taken out and compiled. -/
lemma comesTo_recompile {s : Snapshot} (h : AtRest c a) (hq : q.invalidationKey? = some key)
    (hs : a.mapped.get? key = some s) :
    c.ComesTo t q .start Cache.maxSteps
      ({ a with mapped := a.mapped.erase key }.compile t key) := by
  have hstep : c.step t 0 q .start = _ := Cache.step_start_of_invalidationKey? hq
  have hentry := h.refines.entry?_of_mapped hs
  have hr : c.registry.contains key := h.refines.registry ▸ h.refines.known key s hs
  have hevict : c.evict key = (some s.id, (c.evict key).2) :=
    Prod.ext (c.evict_of_some key s.id hentry) rfl
  have hevicted : AtRest (c.evict key).2 { a with mapped := a.mapped.erase key } :=
    ⟨h.refines.evict hs, fun k => by simp [h.free]⟩
  have hgoing : c.step t 0 q .start = .going (.waiting true) ((c.evict key).2.askSlot key) := by
    rw [hstep, Cache.invalidateStep, hevict]
    simp [Cache.approach, hr]
  have hd := (hevicted.refines.askSlot key).takeSlot key 0
  have hagain : q.again key true (((c.evict key).2.askSlot key).takeSlot key 0) =
      (.opening, ((c.evict key).2.askSlot key).takeSlot key 0) := by
    simp [Cache.again_of_invalidationKey? hq, Cache.evictAgain, Cache.entry?_evict]
  have hcomes := comesTo_compile (t := t) hevicted (Request.key?_of_invalidationKey? hq)
    (Table.get?_erase_self ..) hd (fun _ => rfl) hagain
  rw [SnapshotMap.settle_of_invalidationKey? hq] at hcomes
  exact hcomes.after hgoing (by decide)

/-- For a path that is not mapped a call comes to the slot for nothing, or not even there. -/
lemma comesTo_nothing (h : AtRest c a) (hq : q.invalidationKey? = some key)
    (hs : a.mapped.get? key = none) : c.ComesTo t q .start Cache.maxSteps (.nothing, a) := by
  have hk := Request.key?_of_invalidationKey? hq
  have hstep : c.step t 0 q .start = _ := Cache.step_start_of_invalidationKey? hq
  have hentry := h.refines.entry?_of_unmapped hs
  rw [Cache.invalidateStep, c.evict_of_none key hentry] at hstep
  by_cases hr : c.registry.contains key
  · have hgoing : c.step t 0 q .start = .going (.waiting false) (c.askSlot key) := by
      rw [hstep]
      simp [Cache.approach, hr]
    have hfree : (c.askSlot key).holder? key = none := by
      rw [Cache.holder?_askSlot, h.free]
    have hagain : q.again key false ((c.askSlot key).takeSlot key 0) =
        (.leaving .nothing, (c.askSlot key).takeSlot key 0) := by
      simp [Cache.again_of_invalidationKey? hq, Cache.evictAgain, Cache.evict, hentry]
    have hleaves := Cache.completes_waiting (t := t) hk hfree
      (Cache.completes_holding hk hagain (Cache.completes_leaving hk))
    have hafter := ((h.refines.askSlot key).takeSlot key 0).freeSlot key
    rw [answer_eq hafter, SnapshotMap.settle_of_invalidationKey? hq] at hleaves
    refine ⟨_, (Cache.Completes.goes hgoing hleaves).mono (by decide), hafter, fun k => ?_⟩
    by_cases hk : k = key <;>
      simp [Cache.holder?_freeSlot, Cache.holder?_takeSlot, Cache.holder?_askSlot, hk, h.free]
  · have hfinished : c.step t 0 q .start = .finished .nothing c := by
      rw [hstep]
      simp [hr]
    exact ⟨c, .finishes hfinished, h⟩

lemma comesTo_invalidate (h : AtRest c a) (hq : q.invalidationKey? = some key) :
    c.ComesTo t q .start Cache.maxSteps (a.answer t q) := by
  rw [SnapshotMap.answer_of_invalidationKey? hq, SnapshotMap.invalidate]
  cases hs : a.mapped.get? key with
  | some s => exact h.comesTo_recompile hq hs
  | none => exact h.comesTo_nothing hq hs

/-- A call that has the cache for itself is answered as the map answers it. -/
theorem comesTo (h : AtRest c a) (t : FileTree) (q : Request) :
    c.ComesTo t q .start Cache.maxSteps (a.answer t q) := by
  cases q with
  | lookup path | render path model => exact h.comesTo_lookup rfl
  | invalidate path => exact h.comesTo_invalidate rfl
  | get path =>
    refine ⟨c, ?_, h⟩
    have hget : (a.answer t (.get path)).1 =
        ((c.entry? (Path.normalizeLogical path)).map Answer.view).getD .nothing := by
      rw [h.refines.entries, Option.map_map]
      rfl
    rw [hget]
    exact .finishes rfl
  | clear =>
    refine ⟨c.clear.2, ?_, h.refines.clear, fun k => by simp [h.free]⟩
    have hclear : (a.answer t .clear).1 = .cleared c.clear.1 := congrArg _ h.refines.size.symm
    rw [hclear]
    exact .finishes rfl

/-- A client that is given steps enough has all its requests answered as the map answers them. -/
lemma runAlone_eq (t : FileTree) (requests : List Request) {fuel : ℕ}
    (hfuel : Cache.maxSteps * requests.length ≤ fuel) (h : AtRest c a) (answers : List Answer) :
    ∃ c', Cache.runAlone t fuel ⟨requests, .start, answers⟩ c =
        (⟨[], .start, answers ++ (a.serve t requests).1⟩, c') ∧
      AtRest c' (a.serve t requests).2 := by
  induction requests generalizing c a fuel answers with
  | nil =>
    refine ⟨c, ?_, h⟩
    cases fuel <;> simp [Cache.runAlone, Client.advance, SnapshotMap.serve]
  | cons q rest ih =>
    obtain ⟨c', hcompletes, hrest⟩ := h.comesTo t q
    obtain ⟨k, hk, hrun⟩ := hcompletes.runAlone rest answers
    rw [List.length_cons, Nat.mul_succ] at hfuel
    obtain ⟨m, rfl⟩ := Nat.exists_eq_add_of_le' (hk.trans (Nat.le_of_add_left_le hfuel))
    have hm : Cache.maxSteps * rest.length ≤ m := by omega
    obtain ⟨d, hd, hrest⟩ := ih hm hrest (answers ++ [(a.answer t q).1])
    refine ⟨d, ?_, hrest⟩
    rw [hrun, hd, List.append_assoc]
    rfl

/-- Requests are answered one after the other as the map answers them. -/
theorem serve_eq (h : AtRest c a) (t : FileTree) (requests : List Request) :
    (c.serve t requests).1 = (a.serve t requests).1 ∧
      AtRest (c.serve t requests).2 (a.serve t requests).2 := by
  obtain ⟨c', hrun, hrest⟩ := runAlone_eq t requests le_rfl h []
  simpa only [Cache.serve, hrun, List.nil_append, true_and] using hrest

end AtRest

/-- What is asked of an engine, or done to the files meanwhile. -/
inductive Command where
  | edit (files : FileTree)
  | call (requests : List Request)
  | contains (path : String)
  | warm (paths : List String)
  | render (id : Nat) (model : Json)

/-- The files that there are after a command. -/
def Command.files (t : FileTree) : Command → FileTree
  | .edit files => files
  | _ => t

inductive Reply where
  | edited
  | answers (answers : List Answer)
  | contains (found : Bool)
  | warmed (answers : List (String × Answer))
  deriving DecidableEq

def Engine.obey (t : FileTree) (e : Engine) : Command → Reply × Engine
  | .edit _ => (.edited, e)
  | .call requests =>
    let (answers, e) := e.serve t requests
    (.answers answers, e)
  | .contains path => (.contains (e.cache.contains path), e)
  | .warm paths =>
    let (answers, e) := e.warm t paths
    (.warmed answers, e)
  | .render id model => (.answers [e.cache.renderFound id model], e)

def SnapshotMap.obey (t : FileTree) (a : SnapshotMap) : Command → Reply × SnapshotMap
  | .edit _ => (.edited, a)
  | .call requests =>
    let (answers, a) := a.serve t requests
    (.answers answers, a)
  | .contains path => (.contains (a.mapped.contains (Path.normalizeLogical path)), a)
  | .warm paths =>
    let (answers, a) := a.warm t paths
    (.warmed answers, a)
  | .render id model => (.answers [a.render id model], a)

/-- The replies to a script, by whatever obeys its commands. -/
def replies {σ : Type} (obey : FileTree → σ → Command → Reply × σ) (t : FileTree) (s : σ) :
    List Command → List Reply
  | [] => []
  | c :: rest => (obey t s c).1 :: replies obey (c.files t) (obey t s c).2 rest

lemma SnapshotMap.warm_eq (a : SnapshotMap) (t : FileTree) (paths : List String) :
    a.warm t paths =
      let keys := paths.map Path.normalizeLogical
      (keys.zip (a.serve t (keys.map .lookup)).1, (a.serve t (keys.map .lookup)).2) := by
  induction paths generalizing a with
  | nil => rfl
  | cons path rest ih => simp [warm, serve, answer, ih, Path.normalizeLogical_normalizeLogical]

/-- A command keeps an engine and a map together, and has the same reply from both. -/
theorem AtRest.obey_eq {e : Engine} {a : SnapshotMap} (h : AtRest e.cache a) (t : FileTree)
    (c : Command) :
    (e.obey t c).1 = (a.obey t c).1 ∧ AtRest (e.obey t c).2.cache (a.obey t c).2 := by
  cases c with
  | edit files => exact ⟨rfl, h⟩
  | call requests =>
    obtain ⟨hanswers, hrest⟩ := h.serve_eq t requests
    exact ⟨congrArg Reply.answers hanswers, hrest⟩
  | contains path =>
    refine ⟨congrArg Reply.contains ?_, h⟩
    rw [Cache.contains, Table.contains, Table.contains, ← Cache.entry?, h.refines.entries,
      Option.isSome_map]
  | warm paths =>
    obtain ⟨hanswers, hrest⟩ := h.serve_eq t ((paths.map Path.normalizeLogical).map .lookup)
    rw [SnapshotMap.obey, SnapshotMap.warm_eq]
    exact ⟨congrArg Reply.warmed (congrArg (List.zip _) hanswers), hrest⟩
  | render id model =>
    exact ⟨congrArg (fun answer => Reply.answers [answer]) (h.refines.renderFound_eq id model), h⟩

lemma AtRest.replies_eq {e : Engine} {a : SnapshotMap} (h : AtRest e.cache a) (t : FileTree)
    (commands : List Command) :
    replies Engine.obey t e commands = replies SnapshotMap.obey t a commands := by
  induction commands generalizing t e a with
  | nil => rfl
  | cons c rest ih =>
    obtain ⟨hreply, hrest⟩ := h.obey_eq t c
    rw [replies, replies, hreply, ih hrest]

/-- Nothing is mapped while nothing is stored. -/
lemma atRest_empty (registry : Registry) (w : Workshop) {r : Recipe}
    (hw : w.tools = .standard r.generation r.references) :
    AtRest { registry := registry, workshop := w }
      { registry := registry, recipe := r, nameOf := w.nameOf, begun := w.begun } where
  refines :=
    { registry := rfl
      tools := hw
      nameOf := rfl
      begun := rfl
      entries := fun _ => rfl
      size := rfl
      mapped := by simp
      known := by simp
      issued := by simp
      length := rfl
      views := by simp }
  free := fun _ => rfl

/-- Whatever is asked of a new engine is answered as the snapshot map answers it. -/
theorem Engine.replies_like_snapshotMap (e : Engine) (registry : Registry) (r : Recipe)
    (ns : String) (nameOf : ℕ → String) (begun : ℕ) (host : Host) (t : FileTree)
    (commands : List Command) :
    let workshop : Workshop :=
      { ns := ns, tools := .standard r.generation r.references, nameOf := nameOf, begun := begun,
        host := host }
    replies Engine.obey t { e with cache := { registry := registry, workshop := workshop } }
        commands =
      replies SnapshotMap.obey t
        { registry := registry, recipe := r, nameOf := nameOf, begun := begun } commands :=
  AtRest.replies_eq (atRest_empty registry _ rfl) t commands

end CompiledViews
