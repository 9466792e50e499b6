import CompiledViews.Proofs.Watch.Provider

/-! How long watchers live. The references to a watcher are those of the live subscriptions on it,
as long as no call is at work, so that it ends with the last of them. A pool does what a provider
does that counts the references. -/

namespace CompiledViews.Watch

variable {α : Type} {t : FileTree} {root file logical : String} {listener : α}
  {s : Subscription} {held front back : List Subscription} {n place : Nat}

/-- The subscriptions on a watcher are `held`, and each has a reference to it. -/
structure Cell.Holds (c : Cell α) (n : Nat) (held : List Subscription) : Prop where
  tidy : c.watcher.Tidy
  perm : ((Pool.subscriptionsOn (n, c.watcher)).map (·.1)).Perm held
  references_eq : c.references = held.length

namespace Cell.Holds

variable {c : Cell α} {w : Watcher α} {key : Key} {id : Nat}

/-- Nobody has subscribed on a watcher that has just been started. -/
lemma start (hstart : Watcher.start t root = .ok w) (n : Nat) :
    (⟨0, w⟩ : Cell α).Holds n [] := by
  obtain ⟨location, -, rfl⟩ := Watcher.start_eq_ok_iff.mp hstart
  exact ⟨.start _ _, .refl _, rfl⟩

theorem subscribe (h : c.Holds n held)
    (hsubscribe : c.watcher.subscribe file logical listener = some (key, id, w)) :
    (⟨c.references + 1, w⟩ : Cell α).Holds n (held ++ [⟨n, id, key⟩]) := by
  obtain ⟨htidy, -, -, -, -, hperm⟩ := h.tidy.subscribe hsubscribe
  refine ⟨htidy, ?_, ?_⟩
  · have hon : ((Pool.subscriptionsOn (n, w)).map (·.1)).Perm
        (⟨n, id, key⟩ :: (Pool.subscriptionsOn (n, c.watcher)).map (·.1)) :=
      (hperm.map fun l => (⟨⟨n, l.2.id, l.1⟩, l.2⟩ : Subscription × Subscriber α)).map (·.1)
    exact (hon.trans (h.perm.cons _)).trans (List.perm_append_singleton _ _).symm
  · rw [List.length_append, List.length_singleton, h.references_eq]

theorem unsubscribe (h : c.Holds s.watcher (front ++ s :: back)) :
    (⟨c.references - 1, c.watcher.unsubscribe s.key s.id⟩ : Cell α).Holds s.watcher
      (front ++ back) := by
  have hnodup := h.perm.nodup_iff.mp (Pool.subscriptionsOn_nodup h.tidy)
  rw [List.nodup_middle, List.nodup_cons] at hnodup
  have hothers : (front ++ s :: back).filter (· ≠ s) = front ++ back := by
    have hkept : (front ++ back).filter (· ≠ s) = front ++ back := by
      apply List.filter_eq_self.mpr
      intro s' hs'
      exact decide_eq_true fun heq => hnodup.1 (heq ▸ hs')
    rw [List.filter_append] at hkept
    rw [List.filter_append, List.filter_cons_of_neg (by simp), hkept]
  refine ⟨h.tidy.unsubscribe _ _, ?_, ?_⟩
  · rw [Pool.subscriptionsOn_unsubscribe h.tidy, ← hothers]
    have hfilter := h.perm.filter (· ≠ s)
    rwa [List.filter_map] at hfilter
  · rw [h.references_eq]
    simp

/-- The last reference goes with the last subscription. -/
theorem references_le_one_iff (h : c.Holds s.watcher (front ++ s :: back)) :
    c.references ≤ 1 ↔ (c.watcher.unsubscribe s.key s.id).watchedFiles = 0 := by
  have hleft : (c.watcher.unsubscribe s.key s.id).listeners.length = (front ++ back).length := by
    rw [← h.unsubscribe.perm.length_eq, List.length_map, Pool.subscriptionsOn, List.length_map]
  have hreferences := h.references_eq
  rw [List.length_append, List.length_cons] at hreferences
  rw [List.length_append] at hleft
  rw [(h.tidy.unsubscribe _ _).watchedFiles_eq_zero_iff, ← List.length_eq_zero_iff]
  omega

end Cell.Holds

namespace Provider

variable {p p' : Provider α} {c : Cell α} {w : Watcher α}

section Held

/-- The subscriptions on the watcher at a place. -/
def heldOn (held : List Subscription) (n : Nat) : List Subscription := held.filter (·.watcher = n)

lemma heldOn_append (held held' : List Subscription) (n : Nat) :
    heldOn (held ++ held') n = heldOn held n ++ heldOn held' n := List.filter_append ..

@[simp] lemma heldOn_singleton_self (s : Subscription) : heldOn [s] s.watcher = [s] := by
  simp [heldOn]

lemma heldOn_singleton_of_ne (h : s.watcher ≠ n) : heldOn [s] n = [] := by simp [heldOn, h]

lemma heldOn_middle_self (front back : List Subscription) (s : Subscription) :
    heldOn (front ++ s :: back) s.watcher =
      heldOn front s.watcher ++ s :: heldOn back s.watcher := by
  simp [heldOn]

lemma heldOn_middle_of_ne (h : s.watcher ≠ n) :
    heldOn (front ++ s :: back) n = heldOn (front ++ back) n := by
  simp [heldOn, h]

lemma heldOn_ne_nil_iff : heldOn held n ≠ [] ↔ ∃ s ∈ held, s.watcher = n := by
  rw [heldOn, ne_eq, List.filter_eq_nil_iff]
  simp

end Held

/-- When no call is at work, the watchers in memory are those with live subscriptions, and each is
known once. -/
structure Sound (p : Provider α) (held : List Subscription) : Prop where
  holds : ∀ n c, p.memory n = some c → c.Holds n (heldOn held n)
  memory_eq_none_iff : ∀ n, p.memory n = none ↔ heldOn held n = []
  mem_known : ∀ n, p.memory n ≠ none → n ∈ p.known
  known_nodup : p.known.Nodup

namespace Sound

variable {held' : List Subscription}

lemma empty : Sound ({} : Provider α) [] := by
  constructor <;> simp [heldOn]

lemma references_pos (h : p.Sound held) : ∀ n c, p.memory n = some c → 0 < c.references := by
  intro n c hcell
  rw [(h.holds n c hcell).references_eq, List.length_pos_iff]
  intro hnil
  rw [(h.memory_eq_none_iff n).mpr hnil] at hcell
  cases hcell

lemma exists_cell (h : p.Sound held) (hs : s ∈ held) : ∃ c, p.memory s.watcher = some c := by
  apply Option.ne_none_iff_exists'.mp
  rw [ne_eq, h.memory_eq_none_iff]
  exact heldOn_ne_nil_iff.mpr ⟨s, hs, rfl⟩

lemma prune (h : p.Sound held) : p.prune.Sound held where
  holds := h.holds
  memory_eq_none_iff := h.memory_eq_none_iff
  mem_known n hn := List.mem_filter.mpr ⟨h.mem_known n hn, Option.isSome_iff_ne_none.mpr hn⟩
  known_nodup := h.known_nodup.filter _

lemma know (h : p.Sound held) (hfree : p.memory place = none) :
    Sound { p.prune with known := p.prune.known ++ [place] } held where
  holds := h.holds
  memory_eq_none_iff := h.memory_eq_none_iff
  mem_known n hn := List.mem_append_left _ (h.prune.mem_known n hn)
  known_nodup := by
    apply h.prune.known_nodup.append (List.nodup_singleton place)
    simp [Provider.prune, hfree]

/-- What becomes of one watcher changes nothing for the others. -/
lemma put (h : p.Sound held) {o : Option (Cell α)} (hknown : n ∈ p.known)
    (hholds : ∀ c, o = some c → c.Holds n (heldOn held' n)) (hused : o = none ↔ heldOn held' n = [])
    (hothers : ∀ m, m ≠ n → heldOn held' m = heldOn held m) : (p.put n o).Sound held' where
  holds m c hcell := by
    by_cases hm : m = n
    · subst hm
      exact hholds c (by simpa using hcell)
    · rw [hothers m hm]
      exact h.holds m c (by simpa [hm] using hcell)
  memory_eq_none_iff m := by
    by_cases hm : m = n
    · subst hm
      simpa using hused
    · rw [hothers m hm, ← h.memory_eq_none_iff m]
      simp [hm]
  mem_known m hcell := by
    by_cases hm : m = n
    · exact hm ▸ hknown
    · exact h.mem_known m (by simpa [hm] using hcell)
  known_nodup := h.known_nodup

/-- A new subscription holds a reference to its watcher. -/
lemma put_subscribed (h : p.Sound held) (hknown : s.watcher ∈ p.known)
    (hholds : c.Holds s.watcher (heldOn held s.watcher ++ [s])) :
    (p.put s.watcher (some c)).Sound (held ++ [s]) := by
  have hself : heldOn (held ++ [s]) s.watcher = heldOn held s.watcher ++ [s] := by
    rw [heldOn_append, heldOn_singleton_self]
  apply h.put hknown
  · intro c' hc'
    rw [hself]
    exact Option.some.inj hc' ▸ hholds
  · simp [hself]
  · intro m hm
    rw [heldOn_append, heldOn_singleton_of_ne (Ne.symm hm), List.append_nil]

theorem watched (h : p.Sound held) (hfree : p.memory place = none)
    (hw : p.Watches place t root file logical listener (.ok s) p') :
    p'.Sound (held ++ [s]) := by
  cases hw with
  | @joined n c key id w hfind hcell hsubscribe =>
    exact h.prune.put_subscribed (s := ⟨n, id, key⟩) (List.mem_of_find?_eq_some hfind)
      ((h.holds n c hcell).subscribe hsubscribe)
  | @begun w w' key id hfind hstart hsubscribe =>
    have hfirst : (⟨1, w'⟩ : Cell α).Holds place (heldOn held place ++ [⟨place, id, key⟩]) := by
      rw [(h.memory_eq_none_iff place).mp hfree]
      exact (Cell.Holds.start hstart place).subscribe hsubscribe
    exact (h.know hfree).put_subscribed (s := ⟨place, id, key⟩)
      (List.mem_append_right _ (List.mem_singleton_self place)) hfirst

/-- A call that fails leaves in memory what was there. -/
theorem refused {e : WatchError} (h : p.Sound held) (hfree : p.memory place = none)
    (hw : p.Watches place t root file logical listener (.error e) p') :
    p'.Sound held ∧ p'.memory = p.memory ∧ p'.live = p.live := by
  cases hw with
  | unwatchable => exact ⟨h.prune, rfl, live_prune p⟩
  | outside => exact ⟨h.know hfree, rfl, live_known_append hfree⟩

theorem drop (h : p.Sound (front ++ s :: back)) : (p.drop s).Sound (front ++ back) := by
  obtain ⟨c, hcell⟩ := h.exists_cell (s := s) (by simp)
  have hholds := h.holds _ _ hcell
  rw [heldOn_middle_self] at hholds
  have hleft := hholds.unsubscribe
  have hlast : c.references ≤ 1 ↔ heldOn (front ++ back) s.watcher = [] := by
    have hreferences := hholds.references_eq
    rw [List.length_append, List.length_cons] at hreferences
    rw [heldOn_append, ← List.length_eq_zero_iff, List.length_append]
    omega
  rw [drop_eq hcell]
  apply h.put (h.mem_known _ (by simp [hcell]))
  · intro c' hc'
    split at hc'
    case isTrue => cases hc'
    case isFalse =>
      rw [heldOn_append, ← Option.some.inj hc']
      exact hleft
  · rw [← hlast]
    simp
  · intro m hm
    rw [heldOn_middle_of_ne (Ne.symm hm)]

end Sound

section Backs

variable {q : Pool α} {e : WatchError}

/-- The live watchers of a pool are those that references keep in memory, each at the place of its
number. -/
structure Backs (p : Provider α) (q : Pool α) : Prop where
  live_eq : p.live = q.live
  memory_eq_none : ∀ n, q.started ≤ n → p.memory n = none

lemma key?_eq_none_of_find? (hfind : p.prune.known.find? (p.coversAt file) = none) :
    ∀ e ∈ p.live, e.2.key? file = none := by
  intro e he
  rw [← live_prune] at he
  obtain ⟨hknown, c, hcell, hwatcher⟩ := mem_live_iff.mp he
  have hcovers := List.find?_eq_none.mp hfind e.1 hknown
  rw [coversAt_of_cell (p := p) hcell, hwatcher, Bool.not_eq_true] at hcovers
  exact key?_eq_none_iff.mpr hcovers

lemma findSome?_live_eq_some {r : Key × Nat × Watcher α}
    (hfind : p.prune.known.find? (p.coversAt file) = some n) (hcell : p.memory n = some c)
    (hsubscribe : c.watcher.subscribe file logical listener = some r) :
    p.live.findSome? (fun e => (e.2.subscribe file logical listener).map (e.1, ·)) =
      some (n, r) := by
  obtain ⟨-, before, after, hknown, hbefore⟩ := List.find?_eq_some_iff_append.mp hfind
  have hlive : p.live = before.filterMap (fun m => (p.memory m).map fun c => (m, c.watcher)) ++
      (n, c.watcher) :: after.filterMap fun m => (p.memory m).map fun c => (m, c.watcher) := by
    rw [← live_prune, live, hknown]
    simp [hcell]
  apply List.findSome?_eq_some_iff.mpr
  refine ⟨_, _, _, hlive, ?_, ?_⟩
  · rw [hsubscribe]
    rfl
  · intro e he
    obtain ⟨m, hm, heq⟩ := List.mem_filterMap.mp he
    obtain ⟨c', hcell', rfl⟩ := Option.map_eq_some_iff.mp heq
    have hcovers := hbefore m hm
    rw [coversAt_of_cell hcell', Bool.not_eq_true'] at hcovers
    rw [subscribe_eq_none_iff.mpr hcovers]
    rfl

namespace Backs

lemma empty : Backs ({} : Provider α) {} := ⟨rfl, fun _ _ => rfl⟩

lemma lt_started (h : p.Backs q) (hcell : p.memory n = some c) : n < q.started := by
  by_contra hn
  rw [h.memory_eq_none n (Nat.le_of_not_lt hn)] at hcell
  cases hcell

/-- A pool gives the subscription that the provider gives. -/
theorem watched (h : p.Backs q)
    (hw : p.Watches q.started t root file logical listener (.ok s) p') :
    ∃ q', q.watch t root file logical listener = .ok (s, q') ∧ p'.Backs q' := by
  cases hw with
  | @joined n c key id w hfind hcell hsubscribe =>
    have hjoined := findSome?_live_eq_some hfind hcell hsubscribe
    rw [h.live_eq] at hjoined
    have hwatch : q.watch t root file logical listener = .ok (⟨n, id, key⟩,
        { q with live := q.live.map fun e => if e.1 = n then (n, w) else e }) := by
      simp only [Pool.watch, hjoined]
    refine ⟨_, hwatch, ?_, ?_⟩
    · rw [live_put_of_cell (p := p.prune) hcell, live_prune, h.live_eq]
    · intro m hm
      have hne : m ≠ n := Nat.ne_of_gt (Nat.lt_of_lt_of_le (h.lt_started hcell) hm)
      simpa [hne] using h.memory_eq_none m hm
  | @begun w w' key id hfind hstart hsubscribe =>
    have huncovered := key?_eq_none_of_find? hfind
    rw [h.live_eq] at huncovered
    refine ⟨_, Pool.watch_of_uncovered huncovered hstart hsubscribe, ?_, ?_⟩
    · rw [live_start (h.memory_eq_none _ (Nat.le_refl _)), h.live_eq]
    · intro m hm
      have hne : m ≠ q.started := Nat.ne_of_gt hm
      simpa [start, hne] using h.memory_eq_none m (Nat.le_of_succ_le hm)

theorem refused (h : p.Backs q)
    (hw : p.Watches q.started t root file logical listener (.error e) p') :
    q.watch t root file logical listener = .error e ∧ p'.Backs q := by
  cases hw with
  | unwatchable hfind hstart =>
    have huncovered := key?_eq_none_of_find? hfind
    rw [h.live_eq] at huncovered
    refine ⟨Pool.watch_eq_unwatchable huncovered hstart, ?_, h.memory_eq_none⟩
    rw [live_prune, h.live_eq]
  | outside hfind hstart houtside =>
    have huncovered := key?_eq_none_of_find? hfind
    rw [h.live_eq] at huncovered
    have hkey := key?_eq_none_iff.mpr (subscribe_eq_none_iff.mp houtside)
    refine ⟨Pool.watch_eq_outsideRoot huncovered hstart hkey, ?_, h.memory_eq_none⟩
    rw [live_known_append (h.memory_eq_none _ (Nat.le_refl _)), h.live_eq]

/-- A pool ends a watcher when its table is empty, a provider when the last reference to it is given
back, and this is at the same time. -/
theorem drop (h : p.Backs q) (hsound : p.Sound (front ++ s :: back)) :
    (p.drop s).Backs (q.drop s) := by
  obtain ⟨c, hcell⟩ := hsound.exists_cell (s := s) (by simp)
  have hholds := hsound.holds _ _ hcell
  rw [heldOn_middle_self] at hholds
  constructor
  · rw [live_drop hcell hholds.references_le_one_iff, h.live_eq]
    rfl
  · intro m hm
    have hne : m ≠ s.watcher := Nat.ne_of_gt (Nat.lt_of_lt_of_le (h.lt_started hcell) hm)
    rw [drop_eq hcell]
    simpa [hne] using h.memory_eq_none m hm

end Backs

end Backs

/-- Calls to watch files and ends of subscriptions, in any order, and the subscriptions that are
live after them. The files may change from call to call, and a new watcher may be put wherever there
is none. -/
inductive Serves : Provider α → List Subscription → Prop
  | start : Serves {} []
  | watch {p p' : Provider α} {held : List Subscription} {place : Nat} {t : FileTree}
      {root file logical : String} {listener : α} {s : Subscription} (h : Serves p held)
      (hfree : p.memory place = none)
      (hwatch : p.watch place t root file logical listener = (.ok s, p')) :
      Serves p' (held ++ [s])
  | refuse {p p' : Provider α} {held : List Subscription} {place : Nat} {t : FileTree}
      {root file logical : String} {listener : α} {e : WatchError} (h : Serves p held)
      (hfree : p.memory place = none)
      (hwatch : p.watch place t root file logical listener = (.error e, p')) :
      Serves p' held
  | drop {p : Provider α} {front back : List Subscription} {s : Subscription}
      (h : Serves p (front ++ s :: back)) : Serves (p.drop s) (front ++ back)

lemma watches_of_eq {r : Except WatchError Subscription} (h : p.Sound held)
    (hfree : p.memory place = none)
    (hwatch : p.watch place t root file logical listener = (r, p')) :
    p.Watches place t root file logical listener r p' := by
  have hw := p.watches h.references_pos hfree t root file logical listener
  rwa [hwatch] at hw

theorem Serves.sound (h : Serves p held) : p.Sound held := by
  induction h with
  | start => exact .empty
  | watch _ hfree hwatch ih => exact ih.watched hfree (watches_of_eq ih hfree hwatch)
  | refuse _ hfree hwatch ih => exact (ih.refused hfree (watches_of_eq ih hfree hwatch)).1
  | drop _ ih => exact ih.drop

/-- What is to hold of the watchers of a provider while the subscriptions `held` are live. -/
structure LiveWhileUsed (p : Provider α) (held : List Subscription) : Prop where
  /-- A watcher is in memory, and known to be there, as long as a subscription on it is live. -/
  live_iff : ∀ n, (p.memory n ≠ none ↔ ∃ s ∈ held, s.watcher = n) ∧
    ((∃ w, (n, w) ∈ p.live) ↔ ∃ s ∈ held, s.watcher = n)
  live_nodup : (p.live.map (·.1)).Nodup
  subscriptions : ∀ n w, (n, w) ∈ p.live →
    ((Pool.subscriptionsOn (n, w)).map (·.1)).Perm (held.filter (·.watcher = n))
  /-- No watcher is started for a file that one covers already. -/
  joined : ∀ place t root file logical listener, (∃ e ∈ p.live, e.2.covers file = true) →
    ∃ s p', p.watch place t root file logical listener = (.ok s, p') ∧
      p'.live.map (·.1) = p.live.map (·.1) ∧ ∀ n, p'.memory n = none ↔ p.memory n = none
  /-- A call that fails leaves no watcher behind and changes none. -/
  refused : ∀ place t root file logical listener e p', p.memory place = none →
    p.watch place t root file logical listener = (.error e, p') →
    p'.memory = p.memory ∧ p'.live = p.live

namespace Sound

lemma exists_mem_live_iff (h : p.Sound held) :
    (∃ w, (n, w) ∈ p.live) ↔ ∃ s ∈ held, s.watcher = n := by
  rw [← heldOn_ne_nil_iff, ne_eq, ← h.memory_eq_none_iff n]
  constructor
  · rintro ⟨w, hw⟩ hnone
    obtain ⟨-, c, hcell, -⟩ := mem_live_iff.mp hw
    rw [hnone] at hcell
    cases hcell
  · intro hne
    obtain ⟨c, hcell⟩ := Option.ne_none_iff_exists'.mp hne
    exact ⟨c.watcher, mem_live_iff.mpr ⟨h.mem_known n hne, c, hcell, rfl⟩⟩

lemma joined (h : p.Sound held)
    (hcovers : ∃ e ∈ p.live, e.2.covers file = true) :
    ∃ s p', p.watch place t root file logical listener = (.ok s, p') ∧
      p'.live.map (·.1) = p.live.map (·.1) ∧ ∀ n, p'.memory n = none ↔ p.memory n = none := by
  obtain ⟨e, he, hcovers⟩ := hcovers
  rw [← live_prune] at he
  obtain ⟨hknown, c, hcell, hwatcher⟩ := mem_live_iff.mp he
  have hsome : (p.prune.known.find? (p.coversAt file)).isSome := by
    apply List.find?_isSome.mpr
    exact ⟨e.1, hknown, by rw [coversAt_of_cell (p := p) hcell, hwatcher, hcovers]⟩
  obtain ⟨n, hfind⟩ := Option.isSome_iff_exists.mp hsome
  obtain ⟨c, hcell, hcovers⟩ := exists_cell_of_find? hfind
  obtain ⟨key, id, w, hsubscribe⟩ := exists_subscribe hcovers logical listener
  refine ⟨_, _, watch_joined h.references_pos hfind hcell hsubscribe, ?_, ?_⟩
  · rw [live_put_of_cell (p := p.prune) hcell, live_prune, List.map_map]
    apply List.map_congr_left
    intro e _
    by_cases hn : e.1 = n <;> simp [hn]
  · intro m
    by_cases hm : m = n
    · subst hm
      simp [hcell]
    · simp [hm]

theorem liveWhileUsed (h : p.Sound held) : p.LiveWhileUsed held where
  live_iff n := by
    refine ⟨?_, h.exists_mem_live_iff⟩
    rw [ne_eq, h.memory_eq_none_iff]
    exact heldOn_ne_nil_iff
  live_nodup := by
    rw [map_fst_live]
    exact h.prune.known_nodup
  subscriptions n w hw := by
    obtain ⟨-, c, hcell, rfl⟩ := mem_live_iff.mp hw
    exact (h.holds n c hcell).perm
  joined _ _ _ _ _ _ hcovers := h.joined hcovers
  refused _ _ _ _ _ _ _ _ hfree hwatch := (h.refused hfree (watches_of_eq h hfree hwatch)).2

end Sound

end Provider

namespace Pool

/-- Calls to watch files and ends of subscriptions, in any order, and the subscriptions that are
live after them. A call that fails leaves the pool as it is. -/
inductive Serves : Pool α → List Subscription → Prop
  | start : Serves {} []
  | watch {q q' : Pool α} {held : List Subscription} {t : FileTree} {root file logical : String}
      {listener : α} {s : Subscription} (h : Serves q held)
      (hwatch : q.watch t root file logical listener = .ok (s, q')) :
      Serves q' (held ++ [s])
  | drop {q : Pool α} {front back : List Subscription} {s : Subscription}
      (h : Serves q (front ++ s :: back)) : Serves (q.drop s) (front ++ back)

/-- A pool is the provider that puts each watcher at the place of its number. -/
theorem Serves.exists_backs {q : Pool α} (h : Serves q held) :
    ∃ p : Provider α, Provider.Serves p held ∧ p.Backs q := by
  induction h with
  | start => exact ⟨{}, .start, .empty⟩
  | @watch q q' held t root file logical listener s _ hwatch ih =>
    obtain ⟨p, hp, hbacks⟩ := ih
    have hfree := hbacks.memory_eq_none _ (Nat.le_refl _)
    obtain ⟨r, p', hcall⟩ : ∃ r p', p.watch q.started t root file logical listener =
        (r, p') := ⟨_, _, rfl⟩
    have hw := Provider.watches_of_eq hp.sound hfree hcall
    cases r with
    | ok s' =>
      obtain ⟨q'', hwatch', hbacks'⟩ := hbacks.watched hw
      obtain ⟨rfl, rfl⟩ := Prod.mk.inj (Except.ok.inj (hwatch.symm.trans hwatch'))
      exact ⟨p', hp.watch hfree hcall, hbacks'⟩
    | error e =>
      rw [(hbacks.refused hw).1] at hwatch
      cases hwatch
  | drop _ ih =>
    obtain ⟨p, hp, hbacks⟩ := ih
    exact ⟨_, hp.drop, hbacks.drop hp.sound⟩

end Pool

lemma Provider.Backs.answers_eq {p : Provider α} {q : Pool α} (h : p.Backs q) (hp : p.Sound held)
    (t : FileTree) (root file logical : String) (listener : α) :
    (q.watch t root file logical listener).map (·.1) =
      (p.watch q.started t root file logical listener).1 := by
  obtain ⟨r, p', hcall⟩ : ∃ r p', p.watch q.started t root file logical listener =
      (r, p') := ⟨_, _, rfl⟩
  have hw := watches_of_eq hp (h.memory_eq_none _ (Nat.le_refl _)) hcall
  rw [hcall]
  cases r with
  | ok s =>
    obtain ⟨q', hwatch, -⟩ := h.watched hw
    rw [hwatch]
    rfl
  | error e =>
    rw [(h.refused hw).1]
    rfl

/-- However files are watched, with or without success, and subscriptions end: the live watchers are
those on which subscriptions are live, none is started for a file that a live one covers, and a call
that fails leaves them as they were. A pool, which counts no references, has the same watchers and
gives the same answers. -/
theorem watchers_live_while_used :
    (∀ (p : Provider α) held, Provider.Serves p held → p.LiveWhileUsed held) ∧
    ∀ (q : Pool α) held, Pool.Serves q held →
      ∃ p : Provider α, Provider.Serves p held ∧ p.live = q.live ∧
        ∀ t root file logical listener, (q.watch t root file logical listener).map (·.1) =
          (p.watch q.started t root file logical listener).1 := by
  constructor
  · intro p held h
    exact h.sound.liveWhileUsed
  · intro q held h
    obtain ⟨p, hp, hbacks⟩ := h.exists_backs
    exact ⟨p, hp, hbacks.live_eq, hbacks.answers_eq hp.sound⟩

/-- Two files share a watcher, which lives until the second subscription has ended too. A file
outside of the directory in between starts a watcher that ends at once, and one more file inside
joins the first whatever directory is named for it. -/
theorem watchers_live_while_used_shared :
    let t : FileTree := ⟨.dir [("w", .dir [("views", .dir [])])], ["w"]⟩
    ∃ (p : Provider Unit) (a b : Subscription), Provider.Serves p [a, b] ∧
      (∀ n, (∃ w, (n, w) ∈ p.live) ↔ n = 7) ∧
      (∃ s p', p.watch 9 t "absent" "views/c.hbs" "/c.hbs" () = (.ok s, p') ∧
        p'.live.map (·.1) = p.live.map (·.1)) ∧
      (∀ n, (∃ w, (n, w) ∈ (p.drop a).live) ↔ n = 7) ∧
      (∀ n, ¬∃ w, (n, w) ∈ ((p.drop a).drop b).live) ∧
      ∃ q : Pool Unit, Pool.Serves q [⟨0, 0, a.key⟩] ∧
        ∃ p' : Provider Unit, Provider.Serves p' [⟨0, 0, a.key⟩] ∧ p'.live = q.live := by
  intro t
  let base : Key := [.root, .name "w", .name "views"]
  let a : Subscription := ⟨7, 0, base ++ [.name "a.hbs"]⟩
  let b : Subscription := ⟨7, 1, base ++ [.name "b.hbs"]⟩
  let w : Watcher Unit := { root := "views", canonical := base }
  let w₁ : Watcher Unit := ⟨"views", base, [(a.key, [⟨0, "/a.hbs", ()⟩])], 1⟩
  let w₂ : Watcher Unit :=
    ⟨"views", base, [(a.key, [⟨0, "/a.hbs", ()⟩]), (b.key, [⟨1, "/b.hbs", ()⟩])], 2⟩
  obtain ⟨-, hcanonical⟩ :
      t.locate "views" = .ok ["w", "views"] ∧ t.canonicalize "views" = .ok ["w", "views"] :=
    FileTree.resolved_name (by decide) (by decide) (by decide) (by decide) rfl rfl (by simp)
  have hstart : Watcher.start t "views" = .ok w :=
    Watcher.start_eq_ok_iff.mpr ⟨_, hcanonical, rfl⟩
  have ha : w.subscribe "views/a.hbs" "/a.hbs" () = some (a.key, 0, w₁) := by decide
  have hb : w₁.subscribe "views/b.hbs" "/b.hbs" () = some (b.key, 1, w₂) := by decide
  have houtside : w.subscribe "x.hbs" "/x.hbs" () = none := by decide
  let p₁ : Provider Unit := Provider.start {} 7 w₁
  let p₂ : Provider Unit := { p₁.prune with known := p₁.prune.known ++ [3] }
  let p₃ : Provider Unit := p₂.prune.put 7 (some ⟨2, w₂⟩)
  have hbegun : Provider.watch {} 7 t "views" "views/a.hbs" "/a.hbs" () = (.ok a, p₁) :=
    Provider.watch_begun (by simp) rfl hstart ha
  have hfirst : Provider.Serves p₁ [a] := Provider.Serves.start.watch rfl hbegun
  have hrefused : p₁.watch 3 t "views" "x.hbs" "/x.hbs" () =
      (.error (.outsideRoot "x.hbs" "views"), p₂) :=
    Provider.watch_outside hfirst.sound.references_pos rfl (by decide) hstart houtside
  have hsecond : Provider.Serves p₂ [a] := hfirst.refuse rfl hrefused
  have hjoined : p₂.watch 4 t "views" "views/b.hbs" "/b.hbs" () = (.ok b, p₃) :=
    Provider.watch_joined (c := ⟨1, w₁⟩) hsecond.sound.references_pos (by decide) rfl hb
  have hboth : Provider.Serves p₃ ([a] ++ [b]) := hsecond.watch rfl hjoined
  have hleft : Provider.Serves (p₃.drop a) ([] ++ [b]) := Provider.Serves.drop hboth
  have hnone : Provider.Serves ((p₃.drop a).drop b) ([] ++ []) := Provider.Serves.drop hleft
  have hlast : (7, w₂) ∈ p₃.live :=
    Provider.mem_live_iff.mpr ⟨List.mem_singleton_self 7, _, rfl, rfl⟩
  obtain ⟨hprovider, hpool⟩ := watchers_live_while_used (α := Unit)
  refine ⟨p₃, a, b, hboth, fun n => ?_, ?_, fun n => ?_, fun n => ?_, ?_⟩
  · rw [((hprovider _ _ hboth).live_iff n).2]
    simp [a, b, eq_comm]
  · obtain ⟨s, p', hwatch, hlive, -⟩ := (hprovider _ _ hboth).joined 9 t "absent" "views/c.hbs"
      "/c.hbs" () ⟨_, hlast, by decide⟩
    exact ⟨s, p', hwatch, hlive⟩
  · rw [((hprovider _ _ hleft).live_iff n).2]
    simp [b, eq_comm]
  · rw [((hprovider _ _ hnone).live_iff n).2]
    simp
  · have hwatch : Pool.watch {} t "views" "views/a.hbs" "/a.hbs" () =
        .ok (⟨0, 0, a.key⟩, ⟨[(0, w₁)], 1⟩) := Pool.watch_of_uncovered (by simp) hstart ha
    have hone : Pool.Serves ⟨[(0, w₁)], 1⟩ [⟨0, 0, a.key⟩] := Pool.Serves.start.watch hwatch
    obtain ⟨p', hp', hlive, -⟩ := hpool _ _ hone
    exact ⟨_, hone, p', hp', hlive⟩

end CompiledViews.Watch
