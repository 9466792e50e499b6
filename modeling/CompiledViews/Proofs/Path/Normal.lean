import CompiledViews.Proofs.Path.Lexical
import CompiledViews.Proofs.Path.Logical

/-! Normal paths: a dot, steps up and then names, or names from the root. A path that is normal is
resolved already, and what is put below a path may be put below its normal form. -/

namespace CompiledViews.Path

open Text

/-- Some steps up and then names; a dot if there is neither. -/
def relativeText (ups : ℕ) (names : List String) : String :=
  if ups = 0 ∧ names = [] then "." else "/".intercalate (List.replicate ups ".." ++ names)

/-- Names from the root. -/
def absoluteText (names : List String) : String := "/" ++ "/".intercalate names

namespace Resolved

variable {r : Resolved}

/-- There are no steps up from the root. -/
def Rooted (r : Resolved) : Prop := r.absolute = true → r.ups = 0

lemma Rooted.step (h : r.Rooted) (c : Component) : (r.step c).Rooted := by
  cases c with
  | root => exact fun _ => rfl
  | here => exact h
  | name s => exact h
  | up =>
    rw [Resolved.step]
    split
    case h_1 => exact h
    case h_2 =>
      split
      case isTrue => exact h
      case isFalse hrelative => exact fun habsolute => absurd habsolute hrelative

lemma Rooted.foldl_step (h : r.Rooted) (cs : List Component) :
    (cs.foldl Resolved.step r).Rooted := by
  induction cs generalizing r with
  | nil => exact h
  | cons c cs ih => exact ih (h.step c)

lemma foldl_step_ups (n : ℕ) :
    (List.replicate n Component.up).foldl step here = { here with ups := n } := by
  induction n with
  | zero => rfl
  | succ n ih =>
    rw [List.replicate_succ', List.foldl_concat, ih]
    rfl

/-- The components of a resolved path resolve to it. -/
theorem ofComponents_components (h : r.Rooted) : ofComponents r.components = r := by
  obtain ⟨absolute, ups, names⟩ := r
  rw [ofComponents, components, List.foldl_append]
  cases absolute with
  | true =>
    obtain rfl : ups = 0 := h rfl
    show (names.reverse.map Component.name).foldl step ⟨true, 0, []⟩ = _
    rw [foldl_step_names, List.reverse_reverse, List.append_nil]
  | false =>
    show (names.reverse.map Component.name).foldl step
      ((List.replicate ups Component.up).foldl step here) = _
    rw [foldl_step_ups, foldl_step_names, List.reverse_reverse]
    simp [here]

theorem resolve_text (hnamed : r.Named) (hrooted : r.Rooted) : resolve r.text = r := by
  rw [resolve, components_text hnamed]
  split
  case isTrue hnil =>
    have hr := ofComponents_components hrooted
    rw [List.isEmpty_iff.mp hnil] at hr
    exact hr
  case isFalse => exact ofComponents_components hrooted

end Resolved

section Join

variable {c d : Component} {cs : List Component} {p q : String}

lemma Component.LeadsOn.toList_text_ne_nil (h : c.LeadsOn) : c.text.toList ≠ [] := by
  intro hnil
  have hpiece := h.ofPiece_text
  rw [hnil] at hpiece
  cases hpiece

/-- A slash is put between components that lead on. -/
lemma join_text (front : String) (hc : c.LeadsOn) (hd : d.LeadsOn) :
    join (front ++ c.text) d.text = front ++ c.text ++ "/" ++ d.text := by
  have hne : (front ++ c.text).isEmpty = false := by
    apply Bool.eq_false_iff.mpr
    intro hempty
    have hnil := congrArg String.toList (String.isEmpty_iff.mp hempty)
    rw [String.toList_append] at hnil
    exact hc.toList_text_ne_nil (List.append_eq_nil_iff.mp hnil).2
  have hlast : (front ++ c.text).toList.getLast? ≠ some '/' := by
    rw [String.toList_append, List.getLast?_append_of_ne_nil _ hc.toList_text_ne_nil]
    exact fun hslash => hc.slash_not_mem_text (List.mem_of_getLast? hslash)
  rw [join, hd.isAbsolute_text, hne, if_neg (by simp), if_neg hlast]

lemma foldl_join_text (h : ∀ d ∈ cs, d.LeadsOn) (front : String) (hc : c.LeadsOn) :
    cs.foldl (fun path d => join path d.text) (front ++ c.text) =
      front ++ "/".intercalate ((c :: cs).map Component.text) := by
  induction cs generalizing front c with
  | nil => rw [List.map_singleton, String.intercalate_singleton]; rfl
  | cons d cs ih =>
    rw [List.forall_mem_cons] at h
    rw [List.foldl_cons, join_text front hc h.1, ih h.2 (front ++ c.text ++ "/") h.1]
    simp only [List.map_cons, String.intercalate_cons_cons, String.append_assoc]

/-- The text of components that lead on has a slash between them. -/
theorem ofComponents_eq_intercalate (h : ∀ c ∈ cs, c.LeadsOn) :
    ofComponents cs = "/".intercalate (cs.map Component.text) := by
  cases cs with
  | nil => rfl
  | cons c cs =>
    rw [List.forall_mem_cons] at h
    have hfirst : join "" c.text = "" ++ c.text := by
      rw [join, if_pos (by simp), String.empty_append]
    rw [ofComponents, List.foldl_cons, hfirst, foldl_join_text h.2 "" h.1, String.empty_append]

theorem ofComponents_root_eq_intercalate (h : ∀ c ∈ cs, c.LeadsOn) :
    ofComponents (.root :: cs) = "/" ++ "/".intercalate (cs.map Component.text) := by
  cases cs with
  | nil => rfl
  | cons c cs =>
    rw [List.forall_mem_cons] at h
    have hfirst : join "/" c.text = "/" ++ c.text := by
      rw [join, h.1.isAbsolute_text, if_neg (by decide), if_pos (by decide)]
    show cs.foldl _ (join "/" c.text) = _
    rw [hfirst, foldl_join_text h.2 "/" h.1]

/-- What is put below a path is resolved from where the path leads. -/
theorem resolve_join (p : String) (hq : isAbsolute q = false) :
    resolve (join p q) = (components q).foldl Resolved.step (resolve p) := by
  have hhead : q.toList.head? ≠ some '/' := of_decide_eq_false hq
  -- A dot in front of `q` is a component of `q`, but not of the joined path.
  have hstart : ∀ r : Resolved, (components q).foldl Resolved.step r =
      ((splitList isSlash q.toList).filterMap ofPiece).foldl Resolved.step r := by
    intro r
    rw [components, componentsList, if_neg hhead]
    split <;> rfl
  by_cases hp : p = ""
  · obtain rfl := hp
    rw [join, if_pos (by simp)]
    rfl
  · rw [hstart, resolve, components_join_relative hp hq, Resolved.ofComponents, List.foldl_append]
    rfl

end Join

section Text

variable {names : List String}

lemma text_absolute (h : ∀ n ∈ names, IsName n) :
    Resolved.text ⟨true, 0, names.reverse⟩ = absoluteText names := by
  have hcomponents : Resolved.components ⟨true, 0, names.reverse⟩ =
      .root :: names.map .name := by simp [Resolved.components]
  have hnames : ∀ c ∈ names.map Component.name, c.LeadsOn := List.forall_mem_map.mpr h
  rw [Resolved.text, hcomponents, if_neg (by simp), ofComponents_root_eq_intercalate hnames,
    map_text_name]
  rfl

lemma text_relative (ups : ℕ) (h : ∀ n ∈ names, IsName n) :
    Resolved.text ⟨false, ups, names.reverse⟩ = relativeText ups names := by
  have hcomponents : Resolved.components ⟨false, ups, names.reverse⟩ =
      List.replicate ups .up ++ names.map .name := by simp [Resolved.components]
  have hleadsOn : ∀ c ∈ List.replicate ups Component.up ++ names.map Component.name,
      c.LeadsOn := by
    rw [List.forall_mem_append]
    refine ⟨fun c hc => ?_, List.forall_mem_map.mpr h⟩
    rw [List.eq_of_mem_replicate hc]
    trivial
  have htexts : (List.replicate ups Component.up ++ names.map Component.name).map
      Component.text = List.replicate ups ".." ++ names := by
    rw [List.map_append, List.map_replicate, map_text_name]
    rfl
  rw [Resolved.text, relativeText, hcomponents, ofComponents_eq_intercalate hleadsOn, htexts]
  simp

lemma resolve_absoluteText (h : ∀ n ∈ names, IsName n) :
    resolve (absoluteText names) = ⟨true, 0, names.reverse⟩ := by
  rw [← text_absolute h]
  apply Resolved.resolve_text
  · exact fun s hs => h s (List.mem_reverse.mp hs)
  · exact fun _ => rfl

lemma resolve_relativeText (ups : ℕ) (h : ∀ n ∈ names, IsName n) :
    resolve (relativeText ups names) = ⟨false, ups, names.reverse⟩ := by
  rw [← text_relative ups h]
  apply Resolved.resolve_text
  · exact fun s hs => h s (List.mem_reverse.mp hs)
  · exact fun habsolute => by cases habsolute

end Text

lemma rooted_resolve (path : String) : (resolve path).Rooted :=
  Resolved.Rooted.foldl_step (fun _ => rfl) _

@[simp] theorem resolve_normalize (path : String) : resolve (normalize path) = resolve path :=
  Resolved.resolve_text (named_resolve path) (rooted_resolve path)

/-- A path is resolved from the root if it is written from there. -/
lemma absolute_resolve (path : String) : (resolve path).absolute = isAbsolute path := by
  rw [resolve, Resolved.ofComponents, components, componentsList, isAbsolute]
  by_cases hslash : path.toList.head? = some '/'
  · rw [if_pos hslash, List.foldl_append, Resolved.absolute_foldl_step _ (root_not_mem_filterMap _),
      decide_eq_true hslash]
    rfl
  · rw [if_neg hslash, List.foldl_append, Resolved.absolute_foldl_step _ (root_not_mem_filterMap _),
      decide_eq_false hslash]
    split <;> rfl

/-- A path in normal form, by where it starts. -/
theorem normalize_cases (path : String) : ∃ names : List String, (∀ n ∈ names, IsName n) ∧
    (isAbsolute path = true ∧ normalize path = absoluteText names ∨
      isAbsolute path = false ∧ ∃ ups, normalize path = relativeText ups names) := by
  have hnamed := named_resolve path
  have hrooted := rooted_resolve path
  rw [← absolute_resolve, normalize]
  generalize resolve path = r at hnamed hrooted
  obtain ⟨absolute, ups, names⟩ := r
  have hnames : ∀ n ∈ names.reverse, IsName n := fun n hn => hnamed n (List.mem_reverse.mp hn)
  refine ⟨names.reverse, hnames, ?_⟩
  cases absolute with
  | true =>
    obtain rfl : ups = 0 := hrooted rfl
    have htext := text_absolute hnames
    rw [List.reverse_reverse] at htext
    exact .inl ⟨rfl, htext⟩
  | false =>
    have htext := text_relative ups hnames
    rw [List.reverse_reverse] at htext
    exact .inr ⟨rfl, ups, htext⟩

lemma normalize_absoluteText {names : List String} (h : ∀ n ∈ names, IsName n) :
    normalize (absoluteText names) = absoluteText names := by
  rw [normalize, resolve_absoluteText h, text_absolute h]

lemma normalize_relativeText (ups : ℕ) {names : List String} (h : ∀ n ∈ names, IsName n) :
    normalize (relativeText ups names) = relativeText ups names := by
  rw [normalize, resolve_relativeText ups h, text_relative ups h]

/-- What is put below a path may be put below its normal form. -/
theorem normalize_join (p : String) {q : String} (hq : isAbsolute q = false) :
    normalize (join p q) = normalize (join (normalize p) q) := by
  rw [normalize, normalize, resolve_join p hq, resolve_join (normalize p) hq, resolve_normalize]

lemma normalize_join_up (p : String) : normalize (join p "..") = ((resolve p).step .up).text := by
  have hcomponents : components ".." = [.up] := by decide
  rw [normalize, resolve_join p (by decide), hcomponents]
  rfl

section StepUp

variable {p : String} {names : List String} {ups : ℕ}

/-- From a path below the root, a step up takes back the last name; at the root it goes nowhere. -/
lemma normalize_up_of_absolute (h : ∀ n ∈ names, IsName n) (hp : normalize p = absoluteText names) :
    normalize (join p "..") = absoluteText names.dropLast := by
  have hresolve : resolve p = ⟨true, 0, names.reverse⟩ := by
    rw [← resolve_normalize, hp, resolve_absoluteText h]
  have hstep : Resolved.step ⟨true, 0, names.reverse⟩ .up = ⟨true, 0, names.dropLast.reverse⟩ := by
    rw [Resolved.step, ← List.tail_reverse]
    cases names.reverse <;> rfl
  rw [normalize_join_up, hresolve, hstep,
    text_absolute fun n hn => h n ((List.dropLast_sublist names).subset hn)]

/-- From names below where one is, a step up takes back the last of them. -/
lemma normalize_up_of_names {name : String} (h : ∀ n ∈ names ++ [name], IsName n)
    (hp : normalize p = relativeText ups (names ++ [name])) :
    normalize (join p "..") = relativeText ups names := by
  have hresolve : resolve p = ⟨false, ups, name :: names.reverse⟩ := by
    rw [← resolve_normalize, hp, resolve_relativeText ups h, List.reverse_concat]
  rw [normalize_join_up, hresolve, ← text_relative ups fun n hn =>
    h n (List.mem_append_left _ hn)]
  rfl

/-- Steps up are followed by one more. -/
lemma normalize_up_of_ups (hp : normalize p = relativeText ups []) :
    normalize (join p "..") = relativeText (ups + 1) [] := by
  have hresolve : resolve p = ⟨false, ups, []⟩ := by
    rw [← resolve_normalize, hp, resolve_relativeText ups (by simp), List.reverse_nil]
  have htext : (Resolved.mk false (ups + 1) [].reverse).text = relativeText (ups + 1) [] :=
    text_relative (ups + 1) (by simp)
  rw [normalize_join_up, hresolve, ← htext]
  rfl

end StepUp

/-- A normal path is a dot, steps up and then names, or names from the root, and each of these is
normal. It starts where the path does, and stands for it whatever is put below. -/
theorem normalize_resolves_lexically :
    (∀ path, ∃ names : List String, (∀ n ∈ names, IsName n) ∧
      (isAbsolute path = true ∧ normalize path = absoluteText names ∨
        isAbsolute path = false ∧ ∃ ups, normalize path = relativeText ups names)) ∧
    (∀ names : List String, (∀ n ∈ names, IsName n) →
      normalize (absoluteText names) = absoluteText names ∧
      ∀ ups, normalize (relativeText ups names) = relativeText ups names) ∧
    (∀ path, isAbsolute (normalize path) = isAbsolute path) ∧
    (∀ path, normalize (normalize path) = normalize path) ∧
    (∀ p q, isAbsolute q = false → normalize (join p q) = normalize (join (normalize p) q)) ∧
    (∀ p ups names name, (∀ n ∈ names ++ [name], IsName n) →
      (normalize p = absoluteText (names ++ [name]) →
        normalize (join p "..") = absoluteText names) ∧
      (normalize p = relativeText ups (names ++ [name]) →
        normalize (join p "..") = relativeText ups names)) ∧
    (∀ p ups, normalize p = relativeText ups [] →
      normalize (join p "..") = relativeText (ups + 1) []) ∧
    (∀ p, normalize p = "/" → normalize (join p "..") = "/") := by
  refine ⟨normalize_cases, fun names hnames => ⟨normalize_absoluteText hnames,
    fun ups => normalize_relativeText ups hnames⟩, fun path => ?_, fun path => ?_,
    fun p q hq => normalize_join p hq, fun p ups names name hnames => ⟨fun hp => ?_, fun hp => ?_⟩,
    fun p ups hp => normalize_up_of_ups hp, fun p hp => ?_⟩
  · rw [← absolute_resolve, ← absolute_resolve, resolve_normalize]
  · exact congrArg Resolved.text (resolve_normalize path)
  · have hup := normalize_up_of_absolute hnames hp
    rwa [List.dropLast_concat] at hup
  · exact normalize_up_of_names hnames hp
  · have hnone : ∀ n ∈ ([] : List String), IsName n := by simp
    exact normalize_up_of_absolute hnone hp

theorem normalize_resolves_lexically_climbing :
    (∀ n ∈ ["b"] ++ ["c"], IsName n) ∧ isAbsolute "../d" = false ∧
      normalize (join "a/../../b/./c" "../d") =
        normalize (join (normalize "a/../../b/./c") "../d") ∧
      normalize "a/../../b/./c" = relativeText 1 (["b"] ++ ["c"]) ∧
      normalize (join "a/../../b/./c" "..") = relativeText 1 ["b"] ∧
      normalize "x/../.." = relativeText 1 [] ∧
      normalize (join "x/../.." "..") = relativeText 2 [] ∧
      normalize "/x/../.." = "/" ∧ normalize (join "/x/../.." "..") = "/" := by
  obtain ⟨-, -, -, -, hjoin, hback, hup, htop⟩ := normalize_resolves_lexically
  have hnames : ∀ n ∈ ["b"] ++ ["c"], IsName n := by decide
  have hrelative : isAbsolute "../d" = false := by decide
  have hbelow : normalize "a/../../b/./c" = relativeText 1 (["b"] ++ ["c"]) := by decide +kernel
  have hups : normalize "x/../.." = relativeText 1 [] := by decide +kernel
  have hroot : normalize "/x/../.." = "/" := by decide +kernel
  exact ⟨hnames, hrelative, hjoin _ _ hrelative, hbelow, (hback _ _ _ _ hnames).2 hbelow, hups,
    hup _ _ hups, hroot, htop _ hroot⟩

end CompiledViews.Path
