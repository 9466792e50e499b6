import CompiledViews.Config.Expansion
import CompiledViews.Proofs.Except
import Mathlib.Data.List.Infix
import Mathlib.Data.List.TakeWhile

/-!
Variables in the text of a configuration. A text is cut from left to right into references and the
characters between them. A variable is missing when the first reference without a value says so.
Values are put in for one reference after the other, wherever its spelling stands; as long as that
is nowhere but where it was cut, each reference makes place for its value and all else is kept.
-/

namespace CompiledViews.Config

namespace Reference

variable {r r' : Reference} {text u : List Char}

/-- A reference names a variable, and a default after a colon and a dash. Its first closing brace is
its last character. -/
structure Spelled (r : Reference) : Prop where
  name_ne_nil : r.name ≠ []
  name_plain : ∀ c ∈ r.name, c ≠ '\x7d' ∧ c ≠ ':'
  default_plain : ∀ d ∈ r.default, '\x7d' ∉ d
  spelling_eq : r.spelling =
    '$' :: '\x7b' :: (r.name ++ (r.default.elim [] (':' :: '-' :: ·) ++ ['\x7d']))

lemma Spelled.takeWhile_name (h : r.Spelled) {c : Char} (hc : c = '\x7d' ∨ c = ':')
    (rest : List Char) :
    (r.name ++ c :: rest).takeWhile (fun c => c ≠ '\x7d' && c ≠ ':') = r.name := by
  rw [List.takeWhile_append_of_pos fun c hc => by simpa using h.name_plain c hc,
    List.takeWhile_cons_of_neg (by rcases hc with rfl | rfl <;> decide), List.append_nil]

lemma takeWhile_default {d : List Char} (h : '\x7d' ∉ d) (rest : List Char) :
    (d ++ '\x7d' :: rest).takeWhile (· ≠ '\x7d') = d := by
  have hd : ∀ c ∈ d, decide (c ≠ '\x7d') = true := by
    intro c hc
    simpa using fun he : c = '\x7d' => h (he ▸ hc)
  rw [List.takeWhile_append_of_pos hd, List.takeWhile_cons_of_neg (by decide), List.append_nil]

lemma exists_of_takeWhile_default {rest : List Char}
    (h : ¬(rest.takeWhile (· ≠ '\x7d')).length = rest.length) :
    ∃ d rest', rest = d ++ '\x7d' :: rest' ∧ '\x7d' ∉ d ∧ rest.takeWhile (· ≠ '\x7d') = d := by
  have hmem : '\x7d' ∈ rest := by
    by_contra hno
    refine h (congrArg _ (List.takeWhile_eq_self_iff.mpr fun c hc => ?_))
    simpa using fun he : c = '\x7d' => hno (he ▸ hc)
  obtain ⟨d, rest', rfl, hd⟩ := List.eq_append_cons_of_mem hmem
  exact ⟨d, rest', rfl, hd, takeWhile_default hd rest'⟩

theorem spelled_of_referenceAt? (h : referenceAt? text = some r) :
    r.Spelled ∧ r.spelling <+: text := by
  unfold referenceAt? at h
  split at h
  case h_2 => cases h
  case h_1 cs =>
    have hcut := List.prefix_iff_eq_append.mp
      (List.takeWhile_prefix (l := cs) fun c => c ≠ '\x7d' && c ≠ ':')
    have hplain : ∀ c ∈ cs.takeWhile fun c => c ≠ '\x7d' && c ≠ ':', c ≠ '\x7d' ∧ c ≠ ':' := by
      intro c hc
      simpa using List.mem_takeWhile_imp hc
    dsimp only at h
    generalize cs.takeWhile (fun c => c ≠ '\x7d' && c ≠ ':') = name at h hcut hplain
    split at h
    case isTrue => cases h
    case isFalse hname =>
      have hne : name ≠ [] := by simpa using hname
      split at h
      case h_1 rest hrest =>
        cases h
        rw [hrest] at hcut
        exact ⟨⟨hne, hplain, by simp, by simp⟩, rest, by simp [← hcut]⟩
      case h_2 rest hrest =>
        rw [hrest] at hcut
        split at h
        case isTrue => cases h
        case isFalse hclosed =>
          cases h
          obtain ⟨d, rest', hd, hopen, htake⟩ := exists_of_takeWhile_default hclosed
          rw [htake]
          refine ⟨⟨hne, hplain, by simpa using hopen, by simp⟩, rest', ?_⟩
          simp [← hcut, hd]
      case h_3 => cases h

/-- The reference at the front of a text is the one whose spelling stands there. -/
theorem referenceAt?_eq_some_iff :
    referenceAt? text = some r ↔ r.Spelled ∧ r.spelling <+: text := by
  refine ⟨spelled_of_referenceAt?, ?_⟩
  rintro ⟨h, rest, rfl⟩
  obtain ⟨spelling, name, default⟩ := r
  have hname : name.isEmpty = false := by simpa using h.name_ne_nil
  obtain rfl : spelling = '$' :: '\x7b' ::
    (name ++ (default.elim [] (':' :: '-' :: ·) ++ ['\x7d'])) := h.spelling_eq
  cases default with
  | none =>
    have htake : (name ++ '\x7d' :: rest).takeWhile _ = name := h.takeWhile_name (.inl rfl) rest
    simp only [Option.elim_none, List.nil_append, List.cons_append, List.append_assoc,
      referenceAt?, htake, hname, List.drop_left]
    simp
  | some d =>
    have htake : (name ++ ':' :: '-' :: (d ++ '\x7d' :: rest)).takeWhile _ = name :=
      h.takeWhile_name (.inr rfl) _
    have hd := takeWhile_default (h.default_plain d rfl) rest
    simp only [Option.elim_some, List.nil_append, List.cons_append, List.append_assoc,
      referenceAt?, htake, hname, hd, List.drop_left]
    simp

/-- A closing brace in a spelling is its end. -/
lemma Spelled.exists_closed (h : r.Spelled) :
    ∃ front, r.spelling = front ++ ['\x7d'] ∧ '\x7d' ∉ front := by
  refine ⟨'$' :: '\x7b' :: (r.name ++ r.default.elim [] (':' :: '-' :: ·)),
    by simp [h.spelling_eq], ?_⟩
  have hname : '\x7d' ∉ r.name := fun hmem => (h.name_plain _ hmem).1 rfl
  cases hd : r.default with
  | none => simp [hname]
  | some d => simp [hname, h.default_plain d hd]

/-- A text that begins a spelling and has a closing brace is the spelling. -/
lemma Spelled.eq_of_begins (h : r.Spelled) (hu : u <+: r.spelling) (hmem : '\x7d' ∈ u) :
    u = r.spelling := by
  obtain ⟨front, hspelling, hfront⟩ := h.exists_closed
  rw [hspelling] at hu ⊢
  rcases List.prefix_concat_iff.mp hu with rfl | hu
  · rfl
  · exact absurd (hu.subset hmem) hfront

/-- Whatever ends a spelling has a closing brace. -/
lemma Spelled.mem_of_suffix (h : r.Spelled) (hu : u <:+ r.spelling) (hne : u ≠ []) :
    '\x7d' ∈ u := by
  obtain ⟨front, hspelling, -⟩ := h.exists_closed
  rw [hspelling] at hu
  rcases List.suffix_concat_iff.mp hu with rfl | ⟨front', rfl, -⟩
  · exact absurd rfl hne
  · simp

end Reference

/-- A part of a text: a character that is kept, or a reference. -/
inductive Piece where
  | kept (c : Char)
  | reference (r : Reference)
  deriving DecidableEq

namespace Piece

def reference? : Piece → Option Reference
  | .kept _ => none
  | .reference r => some r

def spelling : Piece → List Char
  | .kept c => [c]
  | .reference r => r.spelling

/-- What stands in the place of a piece: a character itself, and for a reference its value. -/
def text (env : Environment) : Piece → List Char
  | .kept c => [c]
  | .reference r => (r.value? env).getD []

end Piece

/-- The pieces of a text from left to right, after `skip` characters. -/
def pieces (skip : Nat) : List Char → List Piece
  | [] => []
  | c :: cs =>
    match skip with
    | n + 1 => pieces n cs
    | 0 =>
      match referenceAt? (c :: cs) with
      | some r => .reference r :: pieces (r.spelling.length - 1) cs
      | none => .kept c :: pieces 0 cs

/-- The references that are cut out of a text. -/
def cutOut (ps : List Piece) : List Reference := ps.filterMap Piece.reference?

lemma mem_cutOut {ps : List Piece} {r : Reference} :
    r ∈ cutOut ps ↔ .reference r ∈ ps := by
  rw [cutOut, List.mem_filterMap]
  constructor
  · rintro ⟨p, hp, hr⟩
    cases p with
    | kept c => cases hr
    | reference r' => exact Option.some.inj hr ▸ hp
  · exact fun hr => ⟨_, hr, rfl⟩

/-- A text cut from left to right: a reference is cut out wherever one is spelled, and any other
character is kept. -/
inductive Cut : List Char → List Piece → Prop
  | nil : Cut [] []
  | reference {r rest ps} : r.Spelled → Cut rest ps → Cut (r.spelling ++ rest) (.reference r :: ps)
  | kept {c rest ps} : (∀ r : Reference, r.Spelled → ¬ r.spelling <+: c :: rest) → Cut rest ps →
      Cut (c :: rest) (.kept c :: ps)

namespace Cut

variable {text : List Char} {ps : List Piece}

theorem flatMap_spelling (h : Cut text ps) : ps.flatMap Piece.spelling = text := by
  induction h with
  | nil => rfl
  | reference _ _ ih => rw [List.flatMap_cons, ih]; rfl
  | kept _ _ ih => rw [List.flatMap_cons, ih]; rfl

theorem spelled (h : Cut text ps) : ∀ r, .reference r ∈ ps → r.Spelled := by
  induction h with
  | nil => simp
  | reference hr _ ih =>
    rintro r' (_ | ⟨_, hmem⟩)
    · exact hr
    · exact ih r' hmem
  | kept _ _ ih =>
    rintro r' (_ | ⟨_, hmem⟩)
    exact ih r' hmem

end Cut

lemma Reference.Spelled.spelling_cons {r : Reference} (h : r.Spelled) :
    ∃ tail, r.spelling = '$' :: tail := ⟨_, h.spelling_eq⟩

lemma cut_drop_pieces (skip : ℕ) (text : List Char) :
    Cut (text.drop skip) (pieces skip text) := by
  induction text generalizing skip with
  | nil =>
    rw [List.drop_nil]
    exact .nil
  | cons c cs ih =>
    cases skip with
    | succ n => exact ih n
    | zero =>
      rw [List.drop_zero, pieces]
      split
      case h_1 r hr =>
        obtain ⟨hspelled, rest, htext⟩ := Reference.referenceAt?_eq_some_iff.mp hr
        have hrest := ih (r.spelling.length - 1)
        obtain ⟨tail, htail⟩ := hspelled.spelling_cons
        obtain ⟨rfl, rfl⟩ : '$' = c ∧ tail ++ rest = cs := by simpa [htail] using htext
        rw [show (tail ++ rest).drop (r.spelling.length - 1) = rest by simp [htail]] at hrest
        exact htext ▸ Cut.reference hspelled hrest
      case h_2 hnone =>
        refine .kept (fun r hspelled hbegins => ?_) (ih 0)
        simp [Reference.referenceAt?_eq_some_iff.mpr ⟨hspelled, hbegins⟩] at hnone

theorem cut_pieces (text : List Char) : Cut text (pieces 0 text) := cut_drop_pieces 0 text

/-- The references of a text are those that are cut out of it. -/
theorem cutOut_pieces (skip : ℕ) (text : List Char) :
    cutOut (pieces skip text) = referencesIn skip text := by
  induction text generalizing skip with
  | nil => rfl
  | cons c cs ih =>
    cases skip with
    | succ n => exact ih n
    | zero =>
      rw [pieces, referencesIn]
      cases referenceAt? (c :: cs) with
      | some r => exact congrArg (r :: ·) (ih _)
      | none => exact ih 0

/-- No spelling of a reference stands in another one, or in the text that holds the values. -/
structure Apart (env : Environment) (ps : List Piece) : Prop where
  spellings : ∀ r ∈ cutOut ps, ∀ r' ∈ cutOut ps, r.spelling <:+: r'.spelling → r = r'
  values : ∀ r ∈ cutOut ps, ¬ r.spelling <:+: ps.flatMap (Piece.text env)

/-! Replacing. -/

section Replacing

variable {old new text rest : List Char}

lemma replaceAll_eq_drop (n : ℕ) (text : List Char) :
    replaceAll old new n text = replaceAll old new 0 (text.drop n) := by
  induction text generalizing n with
  | nil => simp [replaceAll]
  | cons c cs ih =>
    cases n with
    | zero => rfl
    | succ n => exact ih n

/-- A text at the front is replaced. -/
lemma replaceAll_append (hold : old ≠ []) :
    replaceAll old new 0 (old ++ rest) = new ++ replaceAll old new 0 rest := by
  obtain ⟨c, cs, rfl⟩ := List.exists_cons_of_ne_nil hold
  have hbegins : (c :: cs).isPrefixOf (c :: (cs ++ rest)) = true :=
    List.isPrefixOf_iff_prefix.mpr (List.prefix_append (c :: cs) rest)
  rw [List.cons_append, replaceAll, if_pos hbegins, replaceAll_eq_drop]
  simp

/-- Where a text begins nowhere in what stands at the front, that is kept. -/
lemma replaceAll_append_of_not_begins
    (h : ∀ w, w ≠ [] → w <:+ text → ¬ old <+: w ++ rest) :
    replaceAll old new 0 (text ++ rest) = text ++ replaceAll old new 0 rest := by
  induction text with
  | nil => rfl
  | cons c cs ih =>
    have hhead : old.isPrefixOf (c :: (cs ++ rest)) = false := by
      rw [← Bool.not_eq_true, List.isPrefixOf_iff_prefix]
      exact h (c :: cs) (by simp) (List.suffix_refl _)
    rw [List.cons_append, replaceAll, if_neg (by simp [hhead]), List.cons_append,
      ih fun w hne hw => h w hne (hw.trans (List.suffix_cons c cs))]

end Replacing

/-- What stands in the place of a piece when the values of some references have been put in. -/
def Piece.put (env : Environment) (done : List Reference) : Piece → List Char
  | .kept c => [c]
  | .reference r => if r ∈ done then (r.value? env).getD [] else r.spelling

section Putting

variable {env : Environment} {done : List Reference} {ps : List Piece} {p : Piece}
  {r : Reference} {u : List Char}

lemma Piece.put_eq (env : Environment) (done : List Reference) (p : Piece) :
    p.put env done = p.text env ∨
      ∃ r, p = .reference r ∧ r ∉ done ∧ p.put env done = r.spelling := by
  cases p with
  | kept c => exact .inl rfl
  | reference r =>
    by_cases hr : r ∈ done
    · exact .inl (by simp [put, text, hr])
    · exact .inr ⟨r, rfl, hr, by simp [put, hr]⟩

lemma prefix_append_cases {x y : List Char} (h : u <+: x ++ y) :
    u <+: x ∨ ∃ v, u = x ++ v ∧ v <+: y := by
  rcases List.prefix_or_prefix_of_prefix h (List.prefix_append x y) with hu | ⟨v, rfl⟩
  · exact .inl hu
  · exact .inr ⟨v, rfl, (List.prefix_append_right_inj x).mp h⟩

/-- What begins where references are still spelled out begins where their values stand, if none of
these spellings stands in it. -/
lemma prefix_flatMap_text (hps : ∀ r, .reference r ∈ ps → r.Spelled)
    (hend : ∀ v, v ≠ [] → v <:+ u → '\x7d' ∈ v)
    (hno : ∀ r, .reference r ∈ ps → r ∉ done → ¬ r.spelling <:+: u)
    (h : u <+: ps.flatMap (Piece.put env done)) : u <+: ps.flatMap (Piece.text env) := by
  induction ps generalizing u with
  | nil => exact h
  | cons p ps ih =>
    rw [List.flatMap_cons] at h ⊢
    rcases p.put_eq env done with hput | ⟨r, rfl, hr, hput⟩
    · rw [hput] at h
      rcases prefix_append_cases h with hu | ⟨v, rfl, hv⟩
      · exact hu.trans (List.prefix_append _ _)
      · rw [List.prefix_append_right_inj]
        refine ih (fun r hr => hps r (List.mem_cons_of_mem _ hr)) (fun w hne hw => ?_)
          (fun r hr hdone hin => ?_) hv
        · exact hend w hne (hw.trans (List.suffix_append _ _))
        · exact hno r (List.mem_cons_of_mem _ hr) hdone
            (hin.trans (List.suffix_append _ _).isInfix)
    · rw [hput] at h
      by_cases hne : u = []
      · exact hne ▸ List.nil_prefix
      · -- the spelling would end where `u` has its first closing brace
        refine absurd ?_ (hno r List.mem_cons_self hr)
        rcases prefix_append_cases h with hu | ⟨v, rfl, -⟩
        · rw [(hps r List.mem_cons_self).eq_of_begins hu (hend u hne (List.suffix_refl u))]
        · exact (List.prefix_append _ _).isInfix

/-- A spelling begins nowhere but where a reference was cut out that is still spelled out. -/
lemma not_prefix_put (hspelled : ∀ r, .reference r ∈ ps → r.Spelled) (hapart : Apart env ps)
    (hr : .reference r ∈ ps) {rest : List Piece} (hrest : p :: rest <:+ ps)
    (hp : p = .reference r → r ∈ done) {w : List Char} (hne : w ≠ [])
    (hw : w <:+ p.put env done) :
    ¬ r.spelling <+: w ++ rest.flatMap (Piece.put env done) := by
  intro h
  have hmem : ∀ p' ∈ p :: rest, p' ∈ ps := fun p' hp' => hrest.subset hp'
  have hclosed := hspelled r hr
  rcases p.put_eq env done with hput | ⟨r', rfl, hr', hput⟩
  · rw [hput] at hw
    refine hapart.values r (mem_cutOut.mpr hr) ?_
    have hvalues : w ++ rest.flatMap (Piece.text env) <:+: ps.flatMap (Piece.text env) := by
      obtain ⟨front, rfl⟩ := hrest
      obtain ⟨x, hx⟩ := hw
      exact ⟨front.flatMap (Piece.text env) ++ x, [], by simp [← hx]⟩
    refine List.IsInfix.trans ?_ hvalues
    rcases prefix_append_cases h with hin | ⟨v, hv, hv'⟩
    · exact (hin.trans (List.prefix_append _ _)).isInfix
    · rw [hv]
      refine ((List.prefix_append_right_inj w).mpr (prefix_flatMap_text
        (fun r hr => hspelled r (hmem _ (List.mem_cons_of_mem _ hr))) (fun x hx hends => ?_)
        (fun r' hr' _ hin => ?_) hv')).isInfix
      · exact hclosed.mem_of_suffix (hends.trans (hv ▸ List.suffix_append w v)) hx
      · -- such a spelling would be a shorter spelling of the same reference
        have hinside : r'.spelling <:+: r.spelling :=
          hin.trans (hv ▸ List.suffix_append w v).isInfix
        obtain rfl := hapart.spellings r' (mem_cutOut.mpr (hmem _ (List.mem_cons_of_mem _ hr'))) r
          (mem_cutOut.mpr hr) hinside
        have hlength := hin.length_le
        rw [hv, List.length_append] at hlength
        exact hne (List.length_eq_zero_iff.mp (by omega))
  · rw [hput] at hw
    have hinside : r.spelling <:+: r'.spelling := by
      rcases prefix_append_cases h with hin | ⟨v, hv, -⟩
      · exact hin.isInfix.trans hw.isInfix
      · have hbrace := (hspelled r' (hmem _ List.mem_cons_self)).mem_of_suffix hw hne
        rw [← hclosed.eq_of_begins (hv ▸ List.prefix_append w v) hbrace]
        exact hw.isInfix
    obtain rfl := hapart.spellings r (mem_cutOut.mpr hr) r'
      (mem_cutOut.mpr (hmem _ List.mem_cons_self)) hinside
    exact hr' (hp rfl)

/-- Replacing the spelling of a reference puts its value in where it was cut out, and changes
nothing else. -/
theorem replaceAll_put (hspelled : ∀ r, .reference r ∈ ps → r.Spelled) (hapart : Apart env ps)
    (hr : .reference r ∈ ps) {rest : List Piece} (hrest : rest <:+ ps) :
    replaceAll r.spelling ((r.value? env).getD []) 0 (rest.flatMap (Piece.put env done)) =
      rest.flatMap (Piece.put env (r :: done)) := by
  induction rest with
  | nil => simp [replaceAll]
  | cons p rest ih =>
    have htail := ih ((List.suffix_cons p rest).trans hrest)
    rw [List.flatMap_cons, List.flatMap_cons, ← htail]
    by_cases hp : p = .reference r ∧ r ∉ done
    · obtain ⟨rfl, hdone⟩ := hp
      obtain ⟨tail, hcons⟩ := (hspelled r hr).spelling_cons
      have hput : (Piece.reference r).put env done = r.spelling := by simp [Piece.put, hdone]
      have hput' : (Piece.reference r).put env (r :: done) = (r.value? env).getD [] := by
        simp [Piece.put]
      rw [hput, hput', replaceAll_append (by simp [hcons])]
    · rw [not_and_not_right] at hp
      have hput : p.put env (r :: done) = p.put env done := by
        cases p with
        | kept c => rfl
        | reference r' =>
          by_cases hsame : r' = r
          · subst hsame
            simp [Piece.put, hp rfl]
          · simp [Piece.put, hsame]
      rw [hput]
      exact replaceAll_append_of_not_begins fun w hne hw =>
        not_prefix_put hspelled hapart hr hrest hp hne hw

/-- One value after the other is put in. -/
theorem expandAll_put (hspelled : ∀ r, .reference r ∈ ps → r.Spelled) (hapart : Apart env ps)
    {rs : List Reference} (hrs : ∀ r ∈ rs, .reference r ∈ ps ∧ (r.value? env).isSome) :
    expandAll env (ps.flatMap (Piece.put env done)) rs =
      .ok (ps.flatMap (Piece.put env (rs.reverse ++ done))) := by
  induction rs generalizing done with
  | nil => rfl
  | cons r rs ih =>
    rw [List.forall_mem_cons] at hrs
    obtain ⟨⟨hr, hsome⟩, hrest⟩ := hrs
    obtain ⟨value, hvalue⟩ := Option.isSome_iff_exists.mp hsome
    have hreplaced : replaceAll r.spelling _ 0 (ps.flatMap (Piece.put env done)) = _ :=
      replaceAll_put hspelled hapart hr (List.suffix_refl ps)
    rw [hvalue, Option.getD_some] at hreplaced
    simp only [expandAll, hvalue]
    rw [hreplaced, ih hrest, List.reverse_cons, List.append_assoc]
    rfl

lemma flatMap_put_nil (ps : List Piece) :
    ps.flatMap (Piece.put env []) = ps.flatMap Piece.spelling := by
  refine List.flatMap_congr fun p _ => ?_
  cases p <;> simp [Piece.put, Piece.spelling]

lemma flatMap_put_all (h : ∀ r, .reference r ∈ ps → r ∈ done) :
    ps.flatMap (Piece.put env done) = ps.flatMap (Piece.text env) := by
  refine List.flatMap_congr fun p hp => ?_
  cases p with
  | kept c => rfl
  | reference r => simp [Piece.put, Piece.text, h r hp]

end Putting

/-- The text is of no matter for what is missing. -/
theorem expandAll_eq_error_iff (env : Environment) (text : List Char) (rs : List Reference)
    (e : ConfigError) : expandAll env text rs = .error e ↔
      ∃ r, rs.find? (fun r => (r.value? env).isNone) = some r ∧
        e = .variableNotFound (String.ofList r.name) := by
  induction rs generalizing text with
  | nil => simp [expandAll]
  | cons r rs ih =>
    cases hvalue : r.value? env with
    | none => simp [expandAll, hvalue, eq_comm]
    | some value => simp [expandAll, hvalue, ih]

/-- A text is cut into references and other characters, and there is no expansion exactly when a
variable of it has neither a value nor a default; the first such one is named. Otherwise, if no
spelling of a reference stands in another one or comes about with the values, each reference is
replaced where it was cut out, and all other characters are kept. -/
theorem variables_put_in_once (env : Environment) (text : String) :
    let ps := pieces 0 text.toList
    Cut text.toList ps ∧ ps.flatMap Piece.spelling = text.toList ∧
      (∀ e, expand env text = .error e ↔
        ∃ r, (cutOut ps).find? (fun r => (r.value? env).isNone) = some r ∧
          e = .variableNotFound (String.ofList r.name)) ∧
      (Apart env ps → (∀ r ∈ cutOut ps, (r.value? env).isSome) →
        expand env text = .ok (String.ofList (ps.flatMap (Piece.text env)))) := by
  intro ps
  have hcut : Cut text.toList ps := cut_pieces text.toList
  have hreferences : referencesIn 0 text.toList = cutOut ps := (cutOut_pieces 0 _).symm
  refine ⟨hcut, hcut.flatMap_spelling, fun e => ?_, fun hapart hvalues => ?_⟩
  · rw [expand, hreferences, ← expandAll_eq_error_iff env text.toList]
    cases expandAll env text.toList (cutOut ps) <;> simp [Except.map]
  · have hexpanded : expandAll env (ps.flatMap (Piece.put env [])) (cutOut ps) = .ok _ :=
      expandAll_put hcut.spelled hapart fun r hr => ⟨mem_cutOut.mp hr, hvalues r hr⟩
    rw [flatMap_put_nil, hcut.flatMap_spelling, flatMap_put_all (by simp [mem_cutOut])] at hexpanded
    rw [expand, hreferences, hexpanded]
    rfl

/-- A dollar sign in a value or in a default does no harm by itself. -/
theorem variables_put_in_once_price :
    let env : Environment := ⟨[("NS", "Shop")]⟩
    let text := "$\x7bNS\x7d.Views: $\x7bPRICE:-$5\x7d, $\x7bNS\x7d"
    Apart env (pieces 0 text.toList) ∧
      (∀ r ∈ cutOut (pieces 0 text.toList), (r.value? env).isSome) ∧
      expand env text = .ok "Shop.Views: $5, Shop" := by
  intro env text
  have hapart : Apart env (pieces 0 text.toList) := ⟨by decide +kernel, by decide +kernel⟩
  have hvalues : ∀ r ∈ cutOut (pieces 0 text.toList), (r.value? env).isSome := by decide +kernel
  obtain ⟨-, -, -, hput⟩ := variables_put_in_once env text
  have htext : String.ofList ((pieces 0 text.toList).flatMap (Piece.text env)) =
      "Shop.Views: $5, Shop" := by decide +kernel
  exact ⟨hapart, hvalues, (hput hapart hvalues).trans (congrArg _ htext)⟩

/-- A value in which a later reference is spelled out is taken for it. -/
theorem value_put_in_again :
    let env : Environment := ⟨[("A", "$\x7bB\x7d"), ("B", "x")]⟩
    let text := "$\x7bA\x7d $\x7bB\x7d"
    Cut text.toList (pieces 0 text.toList) ∧
      String.ofList ((pieces 0 text.toList).flatMap (Piece.text env)) = "$\x7bB\x7d x" ∧
      expand env text = .ok "x x" := by
  intro env text
  exact ⟨cut_pieces text.toList, by decide +kernel, by decide +kernel⟩

end CompiledViews.Config
