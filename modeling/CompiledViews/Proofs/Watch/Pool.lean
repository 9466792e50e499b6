import CompiledViews.Proofs.Files.Following
import CompiledViews.Proofs.Path.Logical
import CompiledViews.Proofs.Watch.Watcher
import CompiledViews.Watch.Pool

/-! The subscriptions that are live on the watchers of a pool. Watching a file makes one more live,
ending one takes it away, and a watcher is live as long as one of its subscriptions is. -/

namespace CompiledViews.Watch

open CompiledViews.Path

variable {α : Type} {t : FileTree} {root file logical : String} {listener : α}

theorem Watcher.start_eq_ok_iff {w : Watcher α} :
    Watcher.start t root = .ok w ↔ ∃ location, t.canonicalize root = .ok location ∧
      w = { root := root, canonical := rooted location } := by
  rw [Watcher.start]
  simp only [Except.bind_eq_ok_iff]
  refine exists_congr fun location => and_congr_right fun _ => ?_
  exact ⟨fun h => (Except.ok.inj h).symm, fun h => h ▸ rfl⟩

/-- A watcher knows a file below its directory by the names that lead to it. -/
theorem Watcher.key?_pathBelow (w : Watcher α) {names : List String}
    (hnames : ∀ n ∈ names, IsName n) :
    w.key? (pathBelow w.root names) = some (w.canonical ++ names.map .name) := by
  rw [Watcher.key?, components_pathBelow _ hnames, stripComponents_eq_some_iff.mpr rfl]
  rfl

namespace Pool

variable {p p' : Pool α} {s : Subscription}

/-- A file below a directory that has a path from the root can be watched. -/
theorem watch_pathBelow (p : Pool α) {location : Location}
    (hlocation : t.canonicalize root = .ok location) {names : List String}
    (hnames : ∀ n ∈ names, IsName n) (logical : String) (listener : α) :
    ∃ s p', p.watch t root (pathBelow root names) logical listener = .ok (s, p') := by
  rw [Pool.watch]
  split
  case h_1 => exact ⟨_, _, rfl⟩
  case h_2 =>
    have hstart : Watcher.start (α := α) t root = .ok _ :=
      Watcher.start_eq_ok_iff.mpr ⟨location, hlocation, rfl⟩
    have hkey := Watcher.key?_pathBelow
      { root := root, canonical := rooted location : Watcher α } hnames
    rw [hstart]
    simp only [Watcher.subscribe, hkey, Option.map_some]
    exact ⟨_, _, rfl⟩

/-- The subscriptions on a watcher, each with its subscriber. -/
def subscriptionsOn (e : Nat × Watcher α) : List (Subscription × Subscriber α) :=
  e.2.listeners.map fun l => (⟨e.1, l.2.id, l.1⟩, l.2)

/-- All live subscriptions, each with its subscriber. -/
def listeners (p : Pool α) : List (Subscription × Subscriber α) := p.live.flatMap subscriptionsOn

/-- Each live watcher has a number of its own and is in use. -/
structure Tidy (p : Pool α) : Prop where
  numbers_nodup : (p.live.map (·.1)).Nodup
  number_lt : ∀ e ∈ p.live, e.1 < p.started
  tidy : ∀ e ∈ p.live, e.2.Tidy
  used : ∀ e ∈ p.live, e.2.listeners ≠ []

/-- What watching a file comes to: a subscription on a live watcher, or on a new one if none covers
the file. -/
inductive Subscribes (p : Pool α) (t : FileTree) (root file logical : String)
    (listener : α) : Subscription → Pool α → Prop
  | joined {front back : List (Nat × Watcher α)} {n : Nat} {w w' : Watcher α} {key : Key} {id : Nat}
      (hlive : p.live = front ++ (n, w) :: back)
      (hsubscribe : w.subscribe file logical listener = some (key, id, w')) :
      Subscribes p t root file logical listener ⟨n, id, key⟩
        { p with live := front ++ (n, w') :: back }
  | begun {w w' : Watcher α} {key : Key} {id : Nat}
      (huncovered : ∀ e ∈ p.live, e.2.key? file = none)
      (hstart : Watcher.start t root = .ok w)
      (hsubscribe : w.subscribe file logical listener = some (key, id, w')) :
      Subscribes p t root file logical listener ⟨p.started, id, key⟩
        ⟨p.live ++ [(p.started, w')], p.started + 1⟩

lemma tidy_empty : ({} : Pool α).Tidy := by
  constructor <;> simp

lemma listeners_eq_nil_iff (h : p.Tidy) : p.listeners = [] ↔ p.live = [] := by
  rw [listeners, List.flatMap_eq_nil_iff]
  constructor
  · intro hnone
    refine List.eq_nil_iff_forall_not_mem.mpr fun e he => h.used e he ?_
    exact List.map_eq_nil_iff.mp (hnone e he)
  · intro hempty
    simp [hempty]

lemma subscriptionsOn_nodup {e : Nat × Watcher α} (h : e.2.Tidy) :
    ((subscriptionsOn e).map (·.1)).Nodup := by
  have hids : ((subscriptionsOn e).map (·.1)).map (·.id) = e.2.listeners.map (·.2.id) := by
    simp [subscriptionsOn, Function.comp_def]
  exact List.Nodup.of_map _ (hids ▸ h.ids_nodup)

/-- No subscription is live twice. -/
theorem Tidy.subscriptions_nodup (h : p.Tidy) : (p.listeners.map (·.1)).Nodup := by
  rw [listeners, List.map_flatMap]
  refine List.nodup_flatMap.mpr ⟨fun e he => subscriptionsOn_nodup (h.tidy e he), ?_⟩
  refine (List.pairwise_map.mp h.numbers_nodup).imp fun {e e'} hne => ?_
  intro s hs hs'
  apply hne
  simp only [subscriptionsOn, List.map_map, List.mem_map, Function.comp_apply] at hs hs'
  obtain ⟨l, -, rfl⟩ := hs
  obtain ⟨l', -, heq⟩ := hs'
  exact (congrArg Subscription.watcher heq).symm

theorem Tidy.subscribes (h : p.Tidy)
    (hwatch : p.watch t root file logical listener = .ok (s, p')) :
    p.Subscribes t root file logical listener s p' := by
  rw [Pool.watch] at hwatch
  split at hwatch
  case h_1 n key id w' hfound =>
    obtain ⟨front, ⟨n', w⟩, back, hlive, hjoined, -⟩ := List.findSome?_eq_some_iff.mp hfound
    obtain ⟨⟨key', id', w''⟩, hsubscribe, heq⟩ := Option.map_eq_some_iff.mp hjoined
    obtain ⟨rfl, rfl, rfl, rfl⟩ : n' = n ∧ key' = key ∧ id' = id ∧ w'' = w' := by simpa using heq
    obtain ⟨rfl, rfl⟩ := Prod.mk.inj (Except.ok.inj hwatch)
    have hnumbers := h.numbers_nodup
    rw [hlive, List.map_append, List.map_cons, List.nodup_middle, List.nodup_cons,
      List.mem_append, not_or] at hnumbers
    have hothers : ∀ es : List (Nat × Watcher α), n' ∉ es.map (·.1) →
        es.map (fun e => if e.1 = n' then (n', w'') else e) = es := by
      intro es hes
      refine (List.map_congr_left fun e he => if_neg fun hn => hes ?_).trans (List.map_id _)
      exact hn ▸ List.mem_map_of_mem he
    rw [hlive, List.map_append, List.map_cons, if_pos rfl, hothers _ hnumbers.1.1,
      hothers _ hnumbers.1.2]
    exact .joined hlive hsubscribe
  case h_2 hnone =>
    have huncovered : ∀ e ∈ p.live, e.2.key? file = none := by
      intro e he
      have := List.findSome?_eq_none_iff.mp hnone e he
      simpa [Watcher.subscribe] using this
    split at hwatch
    case h_1 => cases hwatch
    case h_2 w hstart =>
      split at hwatch
      case h_1 => cases hwatch
      case h_2 key id w' hsubscribe =>
        obtain ⟨rfl, rfl⟩ := Prod.mk.inj (Except.ok.inj hwatch)
        exact .begun huncovered hstart hsubscribe

/-- A file is watched by the first watcher, if that covers it. -/
theorem watch_of_cons {n id : Nat} {w w' : Watcher α} {es : List (Nat × Watcher α)} {key : Key}
    (hlive : p.live = (n, w) :: es)
    (hsubscribe : w.subscribe file logical listener = some (key, id, w')) :
    p.watch t root file logical listener =
      .ok (⟨n, id, key⟩,
        { p with live := p.live.map fun e => if e.1 = n then (n, w') else e }) := by
  have hfound : p.live.findSome? (fun e => (e.2.subscribe file logical listener).map (e.1, ·)) =
      some (n, key, id, w') := by
    rw [hlive, List.findSome?_cons_of_isSome] <;> rw [hsubscribe] <;> rfl
  rw [Pool.watch, hfound]

lemma findSome?_eq_none (huncovered : ∀ e ∈ p.live, e.2.key? file = none) :
    p.live.findSome? (fun e => (e.2.subscribe file logical listener).map (e.1, ·)) = none := by
  apply List.findSome?_eq_none_iff.mpr
  intro e he
  simp [Watcher.subscribe, huncovered e he]

/-- A watcher is begun for a file that no watcher covers. -/
theorem watch_of_uncovered {id : Nat} {w w' : Watcher α} {key : Key}
    (huncovered : ∀ e ∈ p.live, e.2.key? file = none) (hstart : Watcher.start t root = .ok w)
    (hsubscribe : w.subscribe file logical listener = some (key, id, w')) :
    p.watch t root file logical listener =
      .ok (⟨p.started, id, key⟩, ⟨p.live ++ [(p.started, w')], p.started + 1⟩) := by
  rw [Pool.watch, findSome?_eq_none huncovered, hstart]
  simp only [hsubscribe]

/-- No watcher can be begun for a file. -/
theorem watch_eq_unwatchable {e : SystemError} (huncovered : ∀ e ∈ p.live, e.2.key? file = none)
    (hstart : Watcher.start (α := α) t root = .error e) :
    p.watch t root file logical listener = .error (.unwatchable root e) := by
  rw [Pool.watch, findSome?_eq_none huncovered, hstart]

/-- A file is refused that no watcher covers, nor one that is begun for it. -/
theorem watch_eq_outsideRoot {w : Watcher α} (huncovered : ∀ e ∈ p.live, e.2.key? file = none)
    (hstart : Watcher.start t root = .ok w) (houtside : w.key? file = none) :
    p.watch t root file logical listener = .error (.outsideRoot file root) := by
  rw [Pool.watch, findSome?_eq_none huncovered, hstart]
  simp [Watcher.subscribe, houtside]

/-- Watching a file makes one subscription live that was not. -/
theorem Subscribes.listeners (hs : p.Subscribes t root file logical listener s p')
    (h : p.Tidy) :
    p'.Tidy ∧ p'.listeners.Perm ((s, ⟨s.id, logical, listener⟩) :: p.listeners) := by
  cases hs with
  | @joined front back n w w' key id hlive hsubscribe =>
    have hmem : (n, w) ∈ p.live := hlive ▸ by simp
    obtain ⟨htidy, -, -, -, -, hperm⟩ := (h.tidy _ hmem).subscribe hsubscribe
    have hon : (subscriptionsOn (n, w')).Perm
        ((⟨n, id, key⟩, ⟨id, logical, listener⟩) :: subscriptionsOn (n, w)) := hperm.map _
    have hothers : ∀ e, e ∈ front ++ (n, w') :: back → e = (n, w') ∨ e ∈ p.live := by
      rw [hlive]
      simp only [List.mem_append, List.mem_cons]
      tauto
    refine ⟨⟨?_, ?_, ?_, ?_⟩, ?_⟩
    · have hnumbers := h.numbers_nodup
      rw [hlive, List.map_append, List.map_cons] at hnumbers
      rwa [List.map_append, List.map_cons]
    · intro e he
      rcases hothers e he with rfl | he
      · exact h.number_lt (n, w) hmem
      · exact h.number_lt e he
    · intro e he
      rcases hothers e he with rfl | he
      · exact htidy
      · exact h.tidy e he
    · intro e he
      rcases hothers e he with rfl | he
      · exact List.ne_nil_of_mem (hperm.symm.subset List.mem_cons_self)
      · exact h.used e he
    · rw [Pool.listeners, Pool.listeners, hlive, List.flatMap_append, List.flatMap_cons,
        List.flatMap_append, List.flatMap_cons]
      exact ((hon.append_right _).append_left _).trans List.perm_middle
  | @begun w w' key id huncovered hstart hsubscribe =>
    obtain ⟨location, -, rfl⟩ := Watcher.start_eq_ok_iff.mp hstart
    obtain ⟨htidy, -, -, -, -, hperm⟩ := (Watcher.Tidy.start root _).subscribe hsubscribe
    have hlast : ∀ e, e ∈ p.live ++ [(p.started, w')] → e = (p.started, w') ∨ e ∈ p.live := by
      simp only [List.mem_append, List.mem_singleton]
      tauto
    have hstarted : p.started ∉ p.live.map (·.1) := by
      intro hmem
      obtain ⟨e, he, hnumber⟩ := List.mem_map.mp hmem
      exact Nat.ne_of_lt (h.number_lt e he) hnumber
    refine ⟨⟨?_, ?_, ?_, ?_⟩, ?_⟩
    · rw [List.map_append, List.map_singleton, List.nodup_append_comm, List.singleton_append]
      exact List.nodup_cons.mpr ⟨hstarted, h.numbers_nodup⟩
    · intro e he
      rcases hlast e he with rfl | he
      · exact Nat.lt_succ_self _
      · exact Nat.lt_succ_of_lt (h.number_lt e he)
    · intro e he
      rcases hlast e he with rfl | he
      · exact htidy
      · exact h.tidy e he
    · intro e he
      rcases hlast e he with rfl | he
      · exact List.ne_nil_of_mem (hperm.symm.subset List.mem_cons_self)
      · exact h.used e he
    · have hon : subscriptionsOn (p.started, w') =
          [(⟨p.started, id, key⟩, ⟨id, logical, listener⟩)] := by
        rw [subscriptionsOn, List.perm_singleton.mp hperm]
        rfl
      rw [Pool.listeners, List.flatMap_append, List.flatMap_singleton, hon]
      exact List.perm_append_comm

/-- A watcher after the end of a subscription, unless it ends with it. -/
def afterDrop (s : Subscription) (e : Nat × Watcher α) : Option (Nat × Watcher α) :=
  if e.1 = s.watcher then
    if (e.2.unsubscribe s.key s.id).watchedFiles = 0 then none
    else some (e.1, e.2.unsubscribe s.key s.id)
  else some e

/-- A watcher loses the subscription that ends, and no other. -/
lemma subscriptionsOn_unsubscribe {w : Watcher α} (h : w.Tidy) (s : Subscription) :
    subscriptionsOn (s.watcher, w.unsubscribe s.key s.id) =
      (subscriptionsOn (s.watcher, w)).filter fun l => l.1 ≠ s := by
  rw [subscriptionsOn, subscriptionsOn, List.filter_map, h.listeners_unsubscribe]
  congr 1
  refine List.filter_congr fun l _ => ?_
  obtain ⟨watcher, id, key⟩ := s
  simp [and_comm]

lemma subscriptionsOn_afterDrop (s : Subscription) {e : Nat × Watcher α} (h : e.2.Tidy) :
    ((afterDrop s e).map subscriptionsOn).getD [] =
      (subscriptionsOn e).filter fun l => l.1 ≠ s := by
  rw [afterDrop]
  split
  case isTrue hnumber =>
    obtain ⟨n, w⟩ := e
    obtain rfl : n = s.watcher := hnumber
    rw [← subscriptionsOn_unsubscribe h]
    split
    case isTrue hunused =>
      rw [subscriptionsOn, ((h.unsubscribe s.key s.id).watchedFiles_eq_zero_iff).mp hunused]
      rfl
    case isFalse => rfl
  case isFalse hnumber =>
    rw [List.filter_eq_self.mpr]
    · rfl
    · intro l hl
      obtain ⟨l, -, rfl⟩ := List.mem_map.mp hl
      exact decide_eq_true fun heq => hnumber (congrArg Subscription.watcher heq)

lemma flatMap_afterDrop (s : Subscription) {es : List (Nat × Watcher α)}
    (h : ∀ e ∈ es, e.2.Tidy) : (es.filterMap (afterDrop s)).flatMap subscriptionsOn =
      (es.flatMap subscriptionsOn).filter fun l => l.1 ≠ s := by
  induction es with
  | nil => rfl
  | cons e es ih =>
    rw [List.forall_mem_cons] at h
    rw [List.flatMap_cons, List.filter_append, ← ih h.2, ← subscriptionsOn_afterDrop s h.1,
      List.filterMap_cons]
    cases afterDrop s e <;> rfl

/-- A watcher that does not end keeps its number and is still in use. -/
lemma of_afterDrop {e e' : Nat × Watcher α} (hdrop : afterDrop s e = some e')
    (htidy : e.2.Tidy) (hused : e.2.listeners ≠ []) :
    e'.1 = e.1 ∧ e'.2.Tidy ∧ e'.2.listeners ≠ [] := by
  rw [afterDrop] at hdrop
  split at hdrop
  case isTrue =>
    have hleft := htidy.unsubscribe s.key s.id
    split at hdrop
    case isTrue => cases hdrop
    case isFalse hne =>
      obtain rfl := Option.some.inj hdrop
      exact ⟨rfl, hleft, fun hnil => hne (hleft.watchedFiles_eq_zero_iff.mpr hnil)⟩
  case isFalse =>
    obtain rfl := Option.some.inj hdrop
    exact ⟨rfl, htidy, hused⟩

/-- What is left of the watchers watches what they did. -/
lemma exists_of_mem_drop {e' : Nat × Watcher α} (h : e' ∈ (p.drop s).live) :
    ∃ e ∈ p.live, e'.2.root = e.2.root ∧ e'.2.canonical = e.2.canonical := by
  obtain ⟨e, he, hdrop⟩ := List.mem_filterMap.mp h
  change afterDrop s e = some e' at hdrop
  refine ⟨e, he, ?_⟩
  rw [afterDrop] at hdrop
  split at hdrop
  case isTrue =>
    split at hdrop
    case isTrue => cases hdrop
    case isFalse =>
      obtain rfl := Option.some.inj hdrop
      exact ⟨rfl, rfl⟩
  case isFalse =>
    obtain rfl := Option.some.inj hdrop
    exact ⟨rfl, rfl⟩

/-- Ending a subscription takes it away, and no other. -/
theorem Tidy.listeners_drop (h : p.Tidy) (s : Subscription) :
    (p.drop s).listeners = p.listeners.filter fun l => l.1 ≠ s :=
  flatMap_afterDrop s h.tidy

theorem Tidy.drop (h : p.Tidy) (s : Subscription) : (p.drop s).Tidy := by
  have hold : ∀ e' ∈ (p.drop s).live, ∃ e ∈ p.live,
      e'.1 = e.1 ∧ e'.2.Tidy ∧ e'.2.listeners ≠ [] := by
    intro e' he'
    obtain ⟨e, he, hdrop⟩ := List.mem_filterMap.mp he'
    exact ⟨e, he, of_afterDrop hdrop (h.tidy e he) (h.used e he)⟩
  constructor
  case numbers_nodup =>
    refine List.pairwise_map.mpr (List.pairwise_filterMap.mpr ?_)
    refine (List.pairwise_map.mp h.numbers_nodup).imp_of_mem fun {e₁ e₂} he₁ he₂ hne => ?_
    intro e₁' hdrop₁ e₂' hdrop₂
    rw [(of_afterDrop hdrop₁ (h.tidy _ he₁) (h.used _ he₁)).1,
      (of_afterDrop hdrop₂ (h.tidy _ he₂) (h.used _ he₂)).1]
    exact hne
  case number_lt =>
    intro e' he'
    obtain ⟨e, he, hnumber, -⟩ := hold e' he'
    exact hnumber ▸ h.number_lt e he
  case tidy =>
    intro e' he'
    obtain ⟨e, -, -, htidy, -⟩ := hold e' he'
    exact htidy
  case used =>
    intro e' he'
    obtain ⟨e, -, -, -, hused⟩ := hold e' he'
    exact hused

/-- An event at a file reaches those who are subscribed to the file. -/
theorem Tidy.dispatch (h : p.Tidy) {kind : EventKind} (hkind : kind.isChange = true) (key : Key) :
    p.dispatch ⟨kind, [key]⟩ =
      (p.listeners.filter (·.1.key = key)).map fun l => (l.2.listener, l.2.logical) := by
  rw [Pool.dispatch, listeners, List.filter_flatMap, List.map_flatMap]
  refine List.flatMap_congr fun e he => ?_
  show e.2.dispatch ⟨kind, [key]⟩ = _
  rw [Watcher.dispatch, if_pos hkind, List.flatMap_singleton, (h.tidy e he).subscribersTo,
    subscriptionsOn, List.filter_map, List.map_map, List.map_map]
  rfl

end Pool

end CompiledViews.Watch
