import CompiledViews.Path.Lexical
import CompiledViews.Proofs.Path.Component
import Mathlib.Data.List.Induction

/-! Resolved paths. Their text has their components, unless there are none; and what is put below a
path is resolved on its own and then taken from there. -/

namespace CompiledViews.Path

namespace Resolved

variable {r : Resolved}

/-- All names of the path are names that files have. -/
def Named (r : Resolved) : Prop := ∀ s ∈ r.names, IsName s

lemma foldl_step_names (r : Resolved) (names : List String) :
    (names.map .name).foldl step r = { r with names := names.reverse ++ r.names } := by
  induction names generalizing r with
  | nil => rfl
  | cons name names ih => simp [ih, step]

lemma components_append_names (r : Resolved) (names : List String) :
    ({ r with names := names.reverse ++ r.names } : Resolved).components =
      r.components ++ names.map .name := by
  simp [components]

/-- Where a relative path leads from `r`. Its steps up take back names of `r` as long as there are
any. -/
def append (r s : Resolved) : Resolved where
  absolute := r.absolute
  ups := if r.absolute then r.ups else r.ups + (s.ups - r.names.length)
  names := s.names ++ r.names.drop s.ups

lemma append_here (r : Resolved) : r.append here = r := by simp [append, here]

lemma step_append (r : Resolved) {s : Resolved} (hs : s.absolute = false) {c : Component}
    (hc : c ≠ .root) : (r.append s).step c = r.append (s.step c) := by
  cases c with
  | root => exact absurd rfl hc
  | here => rfl
  | name name => rfl
  | up =>
    obtain ⟨absolute, ups, names⟩ := s
    cases names with
    | cons name names => rfl
    | nil =>
      obtain rfl : absolute = false := hs
      -- Only now is it up to the names of `r` whether there is one to take back.
      cases hdrop : r.names.drop ups with
      | nil =>
        have hlength : r.names.length ≤ ups := List.drop_eq_nil_iff.mp hdrop
        have hmore : r.names.drop (ups + 1) = [] := List.drop_eq_nil_iff.mpr (by omega)
        cases habsolute : r.absolute with
        | true => simp [append, step, hdrop, hmore, habsolute]
        | false =>
          simp only [append, step, hdrop, hmore, habsolute, List.append_nil, Bool.false_eq_true,
            if_false, mk.injEq, true_and, and_true]
          omega
      | cons name names =>
        have hlength : ups < r.names.length := by
          have hlen := congrArg List.length hdrop
          rw [List.length_drop, List.length_cons] at hlen
          omega
        have hless : r.names.drop (ups + 1) = names := by
          rw [← List.drop_drop, hdrop]
          rfl
        simp only [append, step, hdrop, hless, List.nil_append, Bool.false_eq_true, if_false,
          mk.injEq, true_and, and_true]
        split
        · rfl
        · omega

lemma absolute_foldl_step (r : Resolved) {cs : List Component} (h : .root ∉ cs) :
    (cs.foldl step r).absolute = r.absolute := by
  induction cs generalizing r with
  | nil => rfl
  | cons c cs ih =>
    rw [List.mem_cons, not_or] at h
    rw [List.foldl_cons, ih _ h.2]
    cases c with
    | root => exact absurd rfl h.1
    | here => rfl
    | name name => rfl
    | up =>
      rw [step]
      split
      · rfl
      · split <;> rfl

/-- What follows in a path is resolved as on its own. -/
theorem foldl_step_eq_append (r : Resolved) {cs : List Component} (h : .root ∉ cs) :
    cs.foldl step r = r.append (ofComponents cs) := by
  induction cs using List.reverseRecOn with
  | nil => exact r.append_here.symm
  | append_singleton cs c ih =>
    rw [List.mem_append, not_or, List.mem_singleton] at h
    have hrelative : (ofComponents cs).absolute = false := absolute_foldl_step here h.1
    rw [List.foldl_concat, ih h.1, step_append r hrelative (Ne.symm h.2), ofComponents,
      ofComponents, List.foldl_concat]

/-- Names alone lead down from `r`. -/
theorem components_append (r : Resolved) {s : Resolved} (h : s.ups = 0) :
    (r.append s).components = r.components ++ s.names.reverse.map .name := by
  rw [← components_append_names]
  simp [append, h]

lemma here_not_mem_components (r : Resolved) : .here ∉ r.components := by
  rw [components, List.mem_append, not_or]
  constructor
  · split
    case isTrue => simp
    case isFalse => exact fun h => nomatch List.eq_of_mem_replicate h
  · simp

theorem Named.step (h : r.Named) {c : Component} (hc : ∀ s, c = .name s → IsName s) :
    (r.step c).Named := by
  cases c with
  | root => simp [Resolved.step, Named]
  | here => exact h
  | name s => exact List.forall_mem_cons.mpr ⟨hc s rfl, h⟩
  | up =>
    rw [Resolved.step]
    split
    case h_1 name names hnames => exact fun s hs => h s (hnames ▸ List.mem_cons_of_mem _ hs)
    case h_2 => split <;> exact h

theorem Named.foldl_step (h : r.Named) {cs : List Component} (hcs : ∀ s, .name s ∈ cs → IsName s) :
    (cs.foldl Resolved.step r).Named := by
  induction cs generalizing r with
  | nil => exact h
  | cons c cs ih =>
    refine ih (h.step fun s hs => hcs s (hs ▸ List.mem_cons_self)) fun s hs => ?_
    exact hcs s (List.mem_cons_of_mem _ hs)

/-- The text of a resolved path has the components of the path; where there is none, it is a dot. -/
theorem components_text (h : r.Named) : Path.components r.text =
    if r.components.isEmpty then [.here] else r.components := by
  rw [text]
  split
  case isTrue => rfl
  case isFalse =>
    have hnames : ∀ c ∈ r.names.reverse.map Component.name, c.LeadsOn := by
      rw [List.forall_mem_map]
      exact fun s hs => h s (List.mem_reverse.mp hs)
    rw [components]
    split
    case isTrue => exact (components_ofComponents hnames).2
    case isFalse =>
      refine (components_ofComponents ?_).1
      rw [List.forall_mem_append]
      refine ⟨fun c hc => ?_, hnames⟩
      rw [List.eq_of_mem_replicate hc]
      trivial

end Resolved

theorem named_resolve (path : String) : (resolve path).Named :=
  Resolved.Named.foldl_step (by simp [Resolved.here, Resolved.Named]) fun _ h =>
    isName_of_mem_components h

theorem normalize_eq_dot_iff (path : String) :
    normalize path = "." ↔ (resolve path).components = [] := by
  constructor
  · intro hdot
    have hcomponents := Resolved.components_text (named_resolve path)
    rw [show (resolve path).text = "." from hdot] at hcomponents
    split at hcomponents
    case isTrue hnil => exact List.isEmpty_iff.mp hnil
    case isFalse =>
      refine absurd ?_ (resolve path).here_not_mem_components
      rw [← hcomponents]
      decide
  · exact fun hnil => if_pos (List.isEmpty_iff.mpr hnil)

theorem components_normalize (path : String) : components (normalize path) =
    if (resolve path).components.isEmpty then [.here] else (resolve path).components :=
  Resolved.components_text (named_resolve path)

end CompiledViews.Path
