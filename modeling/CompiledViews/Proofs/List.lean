import Mathlib.Data.List.Forall2
import Mathlib.Data.List.Nodup

/-! Lists without repetitions, what is kept of a list, and lists whose items are related one to
one. -/

namespace CompiledViews

section Repetitions

variable {α : Type*} [DecidableEq α]

theorem eraseDups_filter (p : α → Bool) : ∀ as : List α,
    (as.filter p).eraseDups = as.eraseDups.filter p
  | [] => rfl
  | a :: as => by
    have hrest := eraseDups_filter p (as.filter fun b => !b == a)
    rw [List.filter_filter] at hrest
    rw [List.eraseDups_cons]
    by_cases ha : p a = true
    · rw [List.filter_cons_of_pos ha, List.filter_cons_of_pos ha, List.eraseDups_cons, ← hrest,
        List.filter_filter]
      simp only [Bool.and_comm]
    · -- what `p` keeps differs from `a` already
      have hkeep : (as.filter fun b => p b && !b == a) = as.filter p := by
        refine List.filter_congr fun b _ => ?_
        cases hb : p b with
        | false => rfl
        | true => simpa using fun he : b = a => ha (he ▸ hb)
      rw [List.filter_cons_of_neg ha, List.filter_cons_of_neg ha, ← hrest, hkeep]
termination_by as => as.length
decreasing_by exact Nat.lt_succ_of_le (List.length_filter_le _ _)

theorem nodup_eraseDups : ∀ as : List α, as.eraseDups.Nodup
  | [] => List.nodup_nil
  | a :: as => by
    rw [List.eraseDups_cons, List.nodup_cons, List.mem_eraseDups]
    exact ⟨by simp, nodup_eraseDups _⟩
termination_by as => as.length
decreasing_by exact Nat.lt_succ_of_le (List.length_filter_le _ _)

theorem eraseDups_eq_self {as : List α} (h : as.Nodup) : as.eraseDups = as := by
  induction as with
  | nil => rfl
  | cons a as ih =>
    have hkeep : (as.filter fun b => !b == a) = as := by
      refine List.filter_eq_self.mpr fun b hb => ?_
      simpa using fun he : b = a => (List.nodup_cons.mp h).1 (he ▸ hb)
    rw [List.eraseDups_cons, hkeep, ih (List.nodup_cons.mp h).2]

/-- Repetitions in the second part may be dropped before. -/
theorem eraseDups_append_eraseDups (as bs : List α) :
    (as ++ bs.eraseDups).eraseDups = (as ++ bs).eraseDups := by
  rw [List.eraseDups_append, List.eraseDups_append, List.removeAll, List.removeAll,
    ← eraseDups_filter, eraseDups_eq_self (nodup_eraseDups _)]

/-- What is left stands in the order in which it appears first. -/
theorem pairwise_idxOf_eraseDups (as : List α) :
    as.eraseDups.Pairwise fun a b => as.idxOf a < as.idxOf b := by
  induction as with
  | nil => exact List.Pairwise.nil
  | cons a as ih =>
    have hne : ∀ b ∈ as.eraseDups.filter (fun b => !b == a),
        (a :: as).idxOf b = as.idxOf b + 1 := by
      intro b hb
      have hba : b ≠ a := by simpa using (List.mem_filter.mp hb).2
      exact List.idxOf_cons_ne as hba.symm
    rw [List.eraseDups_cons, eraseDups_filter, List.pairwise_cons]
    refine ⟨fun b hb => ?_, (ih.filter _).imp_of_mem fun hb hc hlt => ?_⟩
    · rw [List.idxOf_cons_self, hne b hb]
      exact Nat.succ_pos _
    · rw [hne _ hb, hne _ hc]
      exact Nat.succ_lt_succ hlt

end Repetitions

section Filter

variable {α : Type*} {p : α → Bool} {as bs : List α} {i : ℕ} {a : α}

/-- What is kept of a list stands where as many stand before it as are kept of those before it. -/
theorem getElem?_filter_countP (h : as[i]? = some a) (ha : p a) :
    (as.filter p)[(as.take i).countP p]? = some a := by
  induction as generalizing i with
  | nil => simp at h
  | cons b as ih =>
    cases i with
    | zero =>
      obtain rfl : b = a := by simpa using h
      simp [ha]
    | succ i =>
      have hrest := ih (i := i) (by simpa using h)
      by_cases hb : p b <;> simp [hb, hrest]

/-- A change that does not bear on what is kept changes what is kept at one place. -/
theorem filter_modify_of_pos {f : α → α} (hf : ∀ a, p (f a) = p a) (h : as[i]? = some a)
    (ha : p a) : (as.modify i f).filter p = (as.filter p).modify ((as.take i).countP p) f := by
  induction as generalizing i with
  | nil => simp at h
  | cons b as ih =>
    cases i with
    | zero =>
      obtain rfl : b = a := by simpa using h
      simp [ha, hf]
    | succ i =>
      have hrest := ih (i := i) (by simpa using h)
      by_cases hb : p b <;> simp [hb, hrest]

/-- Two lists of which the same is found at each place have the same kept of them. -/
theorem filter_eq_of_getElem?_iff
    (h : ∀ (i : ℕ) (a : α), p a → (bs[i]? = some a ↔ as[i]? = some a)) :
    bs.filter p = as.filter p := by
  induction as generalizing bs with
  | nil =>
    rw [List.filter_nil, List.filter_eq_nil_iff]
    intro b hb hp
    obtain ⟨i, hi⟩ := List.mem_iff_getElem?.mp hb
    simpa using (h i b hp).mp hi
  | cons a as ih =>
    cases bs with
    | nil =>
      rw [List.filter_nil, eq_comm, List.filter_eq_nil_iff]
      intro b hb hp
      obtain ⟨i, hi⟩ := List.mem_iff_getElem?.mp hb
      simpa using (h i b hp).mpr hi
    | cons b bs =>
      have hrest : bs.filter p = as.filter p := ih fun i c hc => by simpa using h (i + 1) c hc
      have hhead : p a → b = a := fun ha => by simpa using h 0 a ha
      have hhead' : p b → a = b := fun hb => by simpa using h 0 b hb
      by_cases ha : p a
      · simp [hhead ha, ha, hrest]
      · have hb : ¬ p b := fun hb => ha (hhead' hb ▸ hb)
        simp [ha, hb, hrest]

end Filter

section Related

variable {α β : Type*} {R : α → β → Prop} {as : List α} {bs : List β}

lemma exists_of_mem_left (h : List.Forall₂ R as bs) : ∀ a ∈ as, ∃ b ∈ bs, R a b := by
  induction h with
  | nil => simp
  | cons hab _ ih =>
    rw [List.forall_mem_cons]
    exact ⟨⟨_, List.mem_cons_self, hab⟩, fun a ha =>
      (ih a ha).imp fun b hb => ⟨List.mem_cons_of_mem _ hb.1, hb.2⟩⟩

lemma exists_of_mem_right (h : List.Forall₂ R as bs) : ∀ b ∈ bs, ∃ a ∈ as, R a b :=
  exists_of_mem_left (List.Forall₂.flip h)

/-- What stands around an item is related to what stands around its partner. -/
lemma exists_append_cons_of_forall₂ {front back : List α} {a : α}
    (h : List.Forall₂ R (front ++ a :: back) bs) : ∃ front' b back', bs = front' ++ b :: back' ∧
      List.Forall₂ R front front' ∧ R a b ∧ List.Forall₂ R back back' := by
  induction front generalizing bs with
  | nil =>
    cases h with
    | @cons _ b _ back' hab hrest => exact ⟨[], b, back', rfl, .nil, hab, hrest⟩
  | cons c front ih =>
    cases h with
    | @cons _ b _ bs hcb hrest =>
      obtain ⟨front', b', back', rfl, hfront, hab, hback⟩ := ih hrest
      exact ⟨b :: front', b', back', rfl, .cons hcb hfront, hab, hback⟩

/-- Groups without repetitions whose items tell the owner make a list without repetitions when the
owners are distinct. -/
theorem nodup_flatten_of_forall₂ {κ : Type*} {key : α → κ} {owner : β → Option κ}
    {groups : List (List β)} (hkeys : (as.map key).Nodup)
    (h : List.Forall₂ (fun a group => group.Nodup ∧ ∀ b ∈ group, owner b = some (key a))
      as groups) :
    groups.flatten.Nodup := by
  induction h with
  | nil => exact List.nodup_nil
  | @cons a group as groups hgroup hrest ih =>
    rw [List.map_cons, List.nodup_cons] at hkeys
    refine List.nodup_append'.mpr ⟨hgroup.1, ih hkeys.2, fun b hb hb' => hkeys.1 ?_⟩
    obtain ⟨group', hgroup', hmem⟩ := List.mem_flatten.mp hb'
    obtain ⟨a', ha', howner⟩ := exists_of_mem_right hrest group' hgroup'
    have hsame := (hgroup.2 b hb).symm.trans (howner.2 b hmem)
    exact Option.some.inj hsame ▸ List.mem_map_of_mem ha'

end Related

/-- A change of one item may be made after a map, if it is the same there. -/
theorem map_modify_of_comm {α β : Type*} {f : α → β} {g : α → α} {g' : β → β}
    (h : ∀ a, f (g a) = g' (f a)) (as : List α) (n : ℕ) :
    (as.modify n g).map f = (as.map f).modify n g' := by
  refine List.ext_getElem? fun i => ?_
  rw [List.getElem?_map, List.getElem?_modify, List.getElem?_modify, List.getElem?_map]
  cases as[i]? with
  | none => rfl
  | some a => by_cases hi : n = i <;> simp [hi, h]

/-- Of the items with a property there is a last one. -/
theorem exists_last {α : Type*} {p : α → Prop} {as : List α} (h : ∃ a ∈ as, p a) :
    ∃ front a back, as = front ++ a :: back ∧ p a ∧ ∀ b ∈ back, ¬ p b := by
  induction as with
  | nil => simp at h
  | cons a as ih =>
    by_cases hrest : ∃ b ∈ as, p b
    · obtain ⟨front, b, back, rfl, hb, hlast⟩ := ih hrest
      exact ⟨a :: front, b, back, rfl, hb, hlast⟩
    · have ha : p a := (List.exists_mem_cons_iff p a as |>.mp h).resolve_right hrest
      exact ⟨[], a, as, rfl, ha, fun b hb hp => hrest ⟨b, hb, hp⟩⟩

end CompiledViews
