import CompiledViews.Proofs.Path.Logical
import Mathlib.Data.Set.Basic
import Mathlib.Logic.Relation

/-! The canonical spelling of a logical path. Each path has exactly one: other separators, more of
them, and dots between them spell the same path, and what is spelled below a path is spelled below
its canonical spelling. -/

namespace CompiledViews.Path

open Text

/-- Names one below the other, each after a slash; a slash alone if there is none. -/
def spelled (names : List String) : String :=
  if names = [] then "/" else String.join (names.map ("/" ++ ·))

/-- A spelling in which nothing is left to resolve. -/
def IsCanonical (path : String) : Prop :=
  ∃ names : List String, (∀ n ∈ names, IsSegment n.toList) ∧ path = spelled names

/-- A change of a spelling that does not touch what is spelled: another separator, one more of them,
or a dot as a further piece. -/
inductive Respells : List Char → List Char → Prop
  | separator {s s' : Char} (front back : List Char) : isSeparator s → isSeparator s' →
      Respells (front ++ s :: back) (front ++ s' :: back)
  | doubled {s s' : Char} (front back : List Char) : isSeparator s → isSeparator s' →
      Respells (front ++ s :: back) (front ++ s :: s' :: back)
  | dotFirst {s : Char} (back : List Char) : isSeparator s → Respells back ('.' :: s :: back)
  | dotBetween {s s' : Char} (front back : List Char) : isSeparator s → isSeparator s' →
      Respells (front ++ s :: back) (front ++ s :: '.' :: s' :: back)
  | dotLast {s : Char} (front : List Char) : isSeparator s → Respells front (front ++ [s, '.'])

lemma toList_spelled (names : List String) :
    (spelled names).toList = logicalText (names.map String.toList) := by
  rw [spelled, logicalText]
  split
  case isTrue hnil => rw [hnil]; rfl
  case isFalse hne =>
    rw [if_neg (by simpa using hne), String.toList_join, List.flatMap_map, List.flatMap_map]
    congr 1
    funext n
    simp

lemma normalizeLogical_eq_spelled (path : String) :
    normalizeLogical path = spelled ((logicalNames path.toList).map String.ofList) := by
  rw [normalizeLogical, ← String.toList_inj, toList_spelled, String.toList_ofList, List.map_map]
  simp [Function.comp_def]

/-- The names of a spelling are what the spelling is made of. -/
lemma logicalNames_spelled {names : List String} (h : ∀ n ∈ names, IsSegment n.toList) :
    logicalNames (spelled names).toList = names.map String.toList := by
  rw [toList_spelled]
  exact logicalNames_logicalText (List.forall_mem_map.mpr h)

/-- What follows a separator is taken in from the names before it. -/
lemma logicalNames_append_separator {s : Char} (hs : isSeparator s) (front back : List Char) :
    logicalNames (front ++ s :: back) =
      ((splitList isSeparator back).foldl stepLogical (logicalNames front).reverse).reverse := by
  rw [logicalNames, logicalNames, splitList_append_sep hs, List.foldl_append, List.reverse_reverse]

lemma splitList_dot_separator {s : Char} (hs : isSeparator s) (back : List Char) :
    splitList isSeparator ('.' :: s :: back) = ['.'] :: splitList isSeparator back := by
  rw [splitList_cons_of_neg (by decide), splitList_cons_of_pos hs]
  rfl

lemma Respells.logicalNames_eq {a b : List Char} (h : Respells a b) :
    logicalNames a = logicalNames b := by
  cases h with
  | separator front back hs hs' =>
    rw [logicalNames_append_separator hs, logicalNames_append_separator hs']
  | doubled front back hs hs' =>
    rw [logicalNames_append_separator hs, logicalNames_append_separator hs,
      splitList_cons_of_pos hs']
    rfl
  | dotFirst back hs =>
    rw [logicalNames, logicalNames, splitList_dot_separator hs]
    rfl
  | dotBetween front back hs hs' =>
    rw [logicalNames_append_separator hs, logicalNames_append_separator hs,
      splitList_dot_separator hs']
    rfl
  | dotLast front hs =>
    rw [logicalNames_append_separator hs, ← List.reverse_inj, List.reverse_reverse]
    rfl

/-- Any number of changes of this kind, and taking them back, leave the names. -/
lemma logicalNames_eq_of_respells {a b : List Char} (h : Relation.EqvGen Respells a b) :
    logicalNames a = logicalNames b := by
  induction h with
  | rel a b hab => exact hab.logicalNames_eq
  | refl a => rfl
  | symm a b _ ih => exact ih.symm
  | trans a b c _ _ hab hbc => exact hab.trans hbc

theorem isCanonical_normalizeLogical (path : String) : IsCanonical (normalizeLogical path) := by
  refine ⟨_, ?_, normalizeLogical_eq_spelled path⟩
  rw [List.forall_mem_map]
  intro piece hpiece
  rw [String.toList_ofList]
  exact isSegment_of_mem_logicalNames hpiece

theorem isCanonical_iff (path : String) : IsCanonical path ↔ normalizeLogical path = path := by
  constructor
  · rintro ⟨names, hnames, rfl⟩
    rw [normalizeLogical_eq_spelled, logicalNames_spelled hnames, List.map_map]
    simp [Function.comp_def]
  · intro hfixed
    exact hfixed ▸ isCanonical_normalizeLogical path

lemma toList_append_slash (p q : String) :
    (p ++ "/" ++ q).toList = p.toList ++ '/' :: q.toList := by simp

lemma logicalNames_append_slash (p q : String) :
    logicalNames (p ++ "/" ++ q).toList =
      ((splitList isSeparator q.toList).foldl stepLogical
        (logicalNames p.toList).reverse).reverse := by
  rw [toList_append_slash, logicalNames_append_separator (by decide)]

/-- What is spelled below a path may be spelled below its canonical spelling. -/
theorem normalizeLogical_append_slash (p q : String) :
    normalizeLogical (p ++ "/" ++ q) = normalizeLogical (normalizeLogical p ++ "/" ++ q) := by
  have hnames : logicalNames (normalizeLogical p).toList = logicalNames p.toList :=
    normalizeLogical_inj_iff.mp (normalizeLogical_normalizeLogical p)
  refine normalizeLogical_inj_iff.mpr ?_
  rw [logicalNames_append_slash, logicalNames_append_slash, hnames]

lemma logicalNames_of_eq_spelled {p : String} {names : List String}
    (h : ∀ n ∈ names, IsSegment n.toList) (hp : normalizeLogical p = spelled names) :
    logicalNames p.toList = names.map String.toList := by
  rw [← logicalNames_spelled h]
  apply normalizeLogical_inj_iff.mp
  rw [← hp, normalizeLogical_normalizeLogical]

/-- A step up takes back the last name, if there is one. -/
theorem normalizeLogical_append_up {p : String} {names : List String}
    (h : ∀ n ∈ names, IsSegment n.toList) (hp : normalizeLogical p = spelled names) :
    normalizeLogical (p ++ "/..") = spelled names.dropLast := by
  have hlist : logicalNames (p ++ "/" ++ "..").toList = names.dropLast.map String.toList := by
    rw [logicalNames_append_slash, logicalNames_of_eq_spelled h hp]
    show ((names.map String.toList).reverse.tail).reverse = _
    rw [List.tail_reverse, List.reverse_reverse, List.map_dropLast]
  have hspelling : p ++ "/.." = p ++ "/" ++ ".." := by rw [String.append_assoc]; rfl
  rw [hspelling, normalizeLogical_eq_spelled, hlist, List.map_map]
  simp [Function.comp_def]

/-- At the root there is nothing to take back. -/
lemma normalizeLogical_up_first (q : String) :
    normalizeLogical ("../" ++ q) = normalizeLogical q := by
  refine normalizeLogical_inj_iff.mpr ?_
  have hcut : splitList isSeparator ("../" ++ q).toList =
      ['.', '.'] :: splitList isSeparator q.toList := by
    have htext : ("../" ++ q).toList = ['.', '.'] ++ '/' :: q.toList := by simp
    rw [htext, splitList_append_sep (by decide)]
    rfl
  rw [logicalNames, logicalNames, hcut]
  rfl

/-- Every logical path has one canonical spelling. It is reached whatever separators and dots are
used, piece by piece, and a step up takes back the last name that is left. -/
theorem normalizeLogical_canonicalizes :
    (∀ path, IsCanonical (normalizeLogical path)) ∧
    (∀ path, IsCanonical path ↔ normalizeLogical path = path) ∧
    Set.range normalizeLogical = {path | IsCanonical path} ∧
    (∀ path, normalizeLogical (normalizeLogical path) = normalizeLogical path) ∧
    (∀ a b : String, Relation.EqvGen Respells a.toList b.toList →
      normalizeLogical a = normalizeLogical b) ∧
    (∀ p q, normalizeLogical (p ++ "/" ++ q) = normalizeLogical (normalizeLogical p ++ "/" ++ q)) ∧
    (∀ p names name, (∀ n ∈ names ++ [name], IsSegment n.toList) →
      normalizeLogical p = spelled (names ++ [name]) →
      normalizeLogical (p ++ "/..") = spelled names) ∧
    (∀ p, normalizeLogical p = "/" → normalizeLogical (p ++ "/..") = "/") ∧
    (∀ q, normalizeLogical ("../" ++ q) = normalizeLogical q) := by
  refine ⟨isCanonical_normalizeLogical, isCanonical_iff, ?_, normalizeLogical_normalizeLogical,
    fun a b hab => ?_, normalizeLogical_append_slash, fun p names name hnames hp => ?_,
    fun p hp => ?_, normalizeLogical_up_first⟩
  · apply Set.ext
    intro path
    constructor
    · rintro ⟨other, rfl⟩
      exact isCanonical_normalizeLogical other
    · intro hpath
      exact ⟨path, (isCanonical_iff path).mp hpath⟩
  · exact normalizeLogical_inj_iff.mpr (logicalNames_eq_of_respells hab)
  · have hup := normalizeLogical_append_up hnames hp
    rwa [List.dropLast_concat] at hup
  · have hnone : ∀ n ∈ ([] : List String), IsSegment n.toList := by simp
    exact normalizeLogical_append_up hnone hp

theorem normalizeLogical_canonicalizes_backslash :
    Relation.EqvGen Respells "a\\.//b".toList "a/b".toList ∧
      normalizeLogical "a\\.//b" = normalizeLogical "a/b" ∧
      (∀ n ∈ ["a"] ++ ["x"], IsSegment n.toList) ∧
      normalizeLogical "../a/./x" = spelled (["a"] ++ ["x"]) ∧
      normalizeLogical ("../a/./x" ++ "/..") = spelled ["a"] ∧
      normalizeLogical "a\\.." = "/" ∧ normalizeLogical ("a\\.." ++ "/..") = "/" := by
  obtain ⟨-, -, -, -, hrespelled, -, hup, htop, -⟩ := normalizeLogical_canonicalizes
  have hdot : Respells ['a', '\\', '/', 'b'] ['a', '\\', '.', '/', '/', 'b'] :=
    .dotBetween ['a'] ['/', 'b'] (by decide) (by decide)
  have hdoubled : Respells ['a', '\\', 'b'] ['a', '\\', '/', 'b'] :=
    .doubled ['a'] ['b'] (by decide) (by decide)
  have hslash : Respells ['a', '\\', 'b'] ['a', '/', 'b'] :=
    .separator ['a'] ['b'] (by decide) (by decide)
  have hsame : Relation.EqvGen Respells "a\\.//b".toList "a/b".toList :=
    .trans _ _ _ (.symm _ _ (.rel _ _ hdot)) (.trans _ _ _ (.symm _ _ (.rel _ _ hdoubled))
      (.rel _ _ hslash))
  have hsegments : ∀ n ∈ ["a"] ++ ["x"], IsSegment n.toList := by
    have ha : IsSegment "a".toList := IsName.isSegment (by decide) (by decide)
    have hx : IsSegment "x".toList := IsName.isSegment (by decide) (by decide)
    simpa using And.intro ha hx
  have hspelled : normalizeLogical "../a/./x" = spelled (["a"] ++ ["x"]) := by decide +kernel
  have hempty : normalizeLogical "a\\.." = "/" := by decide +kernel
  exact ⟨hsame, hrespelled _ _ hsame, hsegments, hspelled, hup _ _ _ hsegments hspelled, hempty,
    htop _ hempty⟩

end CompiledViews.Path
