import CompiledViews.Proofs.Template.Hole
import CompiledViews.Template.Tree
import Mathlib.Data.List.Basic
import Mathlib.Data.List.TakeWhile

/-!
Templates that are text with tags in between, each of which prints a field. Such a template is read
as what it was put together from: no character of the text is lost, and none is taken for a tag.
-/

namespace CompiledViews.Template

open Grammar Grammar.Rule

/-- Text that opens no tag and holds no escape. -/
def IsText (cs : List Char) : Prop := ∀ x ∈ cs, x ≠ '\x7b' ∧ x ≠ '\\'

/-- A text, and then tags with a text after each. -/
structure Interpolation where
  front : List Char
  rest : List (Hole × List Char)
  front_isText : IsText front
  rest_isText : ∀ part ∈ rest, IsText part.2

namespace Interpolation

/-- The tags and the texts after them. -/
def spelled (parts : List (Hole × List Char)) : List Char :=
  parts.flatMap fun part => part.1.text ++ part.2

/-- The tags, the first of which is at the given place. -/
def tagsFrom (place : ℕ) : List (Hole × List Char) → List Tag
  | [] => []
  | (h, cs) :: parts => h.tag place :: tagsFrom (place + h.text.length + cs.length) parts

/-- The template. -/
def text (t : Interpolation) : List Char := t.front ++ spelled t.rest

/-- Its tags with their places. -/
def tags (t : Interpolation) : List Tag := tagsFrom t.front.length t.rest

end Interpolation

open Interpolation

variable {cs rest : List Char} {place n : ℕ} {x : Char} {parts : List (Hole × List Char)}

/-- Nothing follows, or a tag does. -/
def StopsText (rest : List Char) : Prop := rest = [] ∨ "\x7b\x7b".toList <+: rest

lemma spelled_cons (h : Hole) (cs : List Char) (parts : List (Hole × List Char)) :
    spelled ((h, cs) :: parts) = h.text ++ (cs ++ spelled parts) := by
  simp [spelled]

lemma stopsText_spelled (parts : List (Hole × List Char)) : StopsText (spelled parts) := by
  cases parts with
  | nil => exact .inl rfl
  | cons part parts =>
    refine .inr ?_
    have hopening : "\x7b\x7b".toList <+: part.1.braces.opening := by
      cases part.1.braces <;> simp [Braces.opening]
    simp only [spelled, Hole.text, List.flatMap_cons, List.append_assoc]
    exact hopening.trans (List.prefix_append _ _)

/-! Text, read character by character. -/

lemma refuses_escape {c : Cursor} (h : ∀ y ∈ c.rest.head?, y ≠ '\\') : escape.Refuses c :=
  (refuses_exactly_cons h "\x7b\x7b".toList).bind.orElse (refuses_exactly_cons h []).bind

lemma reads_textStep (hx : x ≠ '\x7b' ∧ x ≠ '\\') (rest : List Char) (place : ℕ) :
    (textStep "\x7b\x7b").Reads ⟨x :: rest, place⟩ () ⟨rest, place + 1⟩ := by
  have hhead : ∀ z, x ≠ z → ∀ y ∈ (⟨x :: rest, place⟩ : Cursor).rest.head?, y ≠ z := by
    rintro z hz y ⟨⟩
    exact hz
  have hfence := refuses_exactly_cons (hhead _ hx.1) ['\x7b']
  exact (refuses_escape (hhead _ hx.2)).orElse_reads
    (hfence.absent.bind ((reads_char rfl).bind (reads_pure _ _)))

lemma refuses_textStep (h : StopsText rest) (place : ℕ) :
    (textStep "\x7b\x7b").Refuses ⟨rest, place⟩ := by
  rcases h with rfl | ⟨tail, rfl⟩
  · have hnil : ∀ z, ∀ y ∈ (⟨[], place⟩ : Cursor).rest.head?, y ≠ z := by simp
    have hfence := refuses_exactly_cons (hnil '\x7b') ['\x7b']
    exact (refuses_escape (hnil _)).orElse
      (hfence.absent.bind_refuses (refuses_char (by simp)).bind)
  · have hhead : ∀ y ∈ ("\x7b\x7b".toList ++ tail).head?, y ≠ '\\' := by
      rintro y ⟨⟩
      decide
    exact (refuses_escape hhead).orElse (reads_exactly _ tail place).absent.bind

lemma repeats_textStep (hcs : IsText cs) (hrest : StopsText rest) (place : ℕ) :
    (textStep "\x7b\x7b").Repeats ⟨cs ++ rest, place⟩ (List.replicate cs.length ())
      ⟨rest, place + cs.length⟩ := by
  induction cs generalizing place with
  | nil => exact .stop (refuses_textStep hrest place)
  | cons x cs ih =>
    obtain ⟨hx, hcs⟩ := List.forall_mem_cons.mp hcs
    have htail := ih hcs (place + 1)
    rw [show place + 1 + cs.length = place + (x :: cs).length by simp; omega] at htail
    exact .step (reads_textStep hx _ _) (by simp) htail

lemma reads_text (hcs : IsText cs) (hne : cs ≠ []) (hrest : StopsText rest) (place : ℕ) :
    Grammar.text.Reads ⟨cs ++ rest, place⟩ () ⟨rest, place + cs.length⟩ := by
  refine Reads.construct ((repeats_textStep hcs hrest place).many.bind ?_)
  rw [if_neg (by simpa using hne)]
  exact reads_pure _ _

lemma refuses_text (hrest : StopsText rest) (place : ℕ) : Grammar.text.Refuses ⟨rest, place⟩ :=
  ((refuses_textStep hrest place).many.bind_refuses (refuses_refuse _)).construct

/-! Elements. -/

lemma reads_element_text (hcs : IsText cs) (hne : cs ≠ []) (hrest : StopsText rest) (n place : ℕ) :
    (element (n + 1)).Reads ⟨cs ++ rest, place⟩ [] ⟨rest, place + cs.length⟩ :=
  Reads.orElse (Reads.bind (reads_text hcs hne hrest place) (reads_pure _ _))

lemma reads_element_hole (h : Hole) (rest : List Char) (n place : ℕ) :
    (element (n + 1)).Reads ⟨h.text ++ rest, place⟩ [h.tag place]
      ⟨rest, place + h.text.length⟩ := by
  have hstops : StopsText (h.text ++ rest) := by
    simpa [spelled] using stopsText_spelled [(h, rest)]
  refine (refuses_text hstops place).bind.orElse_reads (Reads.orElse ?_)
  exact (h.reads_valueTag rest n place).bind (reads_pure _ _)

lemma refuses_exactly_nil {word : List Char} (h : word ≠ []) (place : ℕ) :
    (exactly word).Refuses ⟨[], place⟩ := refuses_exactly (by simpa using h)

lemma refuses_tag_nil {opening closing : String} {inner : Rule Role}
    (h : opening.toList ≠ []) (place : ℕ) : (tag opening closing inner).Refuses ⟨[], place⟩ :=
  (reads_cursor _).bind_refuses (refuses_exactly_nil h place).bind

lemma refuses_valueTag_nil (n place : ℕ) : (valueTag n).Refuses ⟨[], place⟩ := by
  have hbraces : ∀ inner, (braces inner).Refuses ⟨[], place⟩ := fun inner =>
    refuses_tag_nil (by decide) place
  have helse : (elseTag <|> elseChainTag n).Refuses ⟨[], place⟩ :=
    (hbraces _).construct.orElse (hbraces _).construct
  have hspaced : (exactly "\x7b\x7b".toList).Refuses ⟨[], place⟩ :=
    refuses_exactly_nil (by decide) place
  refine (helse.absent.bind_refuses (hbraces _)).construct.orElse (Refuses.construct ?_)
  exact (refuses_tag_nil (by decide) place).orElse
    (((reads_cursor _).bind_refuses hspaced.bind).orElse (hbraces _))

lemma refuses_enclosed_nil (opening : Rule Role) (closing : Rule Tag) (n place : ℕ) :
    (enclosed n opening closing).Refuses ⟨[], place⟩ := by
  cases n with
  | zero => exact refuses_refuse _
  | succ n => exact (refuses_tag_nil (by decide) place).construct.bind

lemma refuses_block_nil (n place : ℕ) : (block n).Refuses ⟨[], place⟩ := by
  cases n with
  | zero => exact refuses_refuse _
  | succ n => exact (refuses_tag_nil (by decide) place).construct.bind

/-- At the end there is no element. -/
lemma refuses_element_nil (n place : ℕ) : (element n).Refuses ⟨[], place⟩ := by
  cases n with
  | zero => exact refuses_refuse _
  | succ n =>
    have hbraces : ∀ inner, (braces inner).Refuses ⟨[], place⟩ := fun inner =>
      refuses_tag_nil (by decide) place
    have hraw : (rawBlock n).Refuses ⟨[], place⟩ :=
      (refuses_tag_nil (by decide) place).construct.bind
    have hmark : (exactly "\x7b\x7b!".toList).Refuses ⟨[], place⟩ :=
      refuses_exactly_nil (by decide) place
    have hcomment : comment.Refuses ⟨[], place⟩ :=
      ((reads_cursor _).bind_refuses hmark.bind).construct.orElse
        ((reads_cursor _).bind_refuses hmark.bind).construct
    refine (refuses_text (.inl rfl) place).bind.orElse ?_
    refine (refuses_valueTag_nil n place).bind.orElse ?_
    refine (refuses_block_nil n place).orElse (hraw.orElse (hcomment.bind.orElse ?_))
    refine (hbraces _).construct.bind.orElse ((refuses_enclosed_nil _ _ n place).orElse ?_)
    exact (hbraces _).construct.bind.orElse (refuses_enclosed_nil _ _ n place)

/-- An element after blanks. -/
def spaced (n : ℕ) : Rule (List Tag) := do spaces; element n

lemma IsText.of_suffix {cs' : List Char} (h : IsText cs) (hsuffix : cs' <:+ cs) : IsText cs' :=
  fun x hx => h x (hsuffix.subset hx)

/-- Text that is not all blank is an element; the blanks before it are passed over. -/
lemma reads_spaced_text (hcs : IsText cs) (hne : ¬ ∀ x ∈ cs, isSpace x = true)
    (hrest : StopsText rest) (n place : ℕ) :
    (spaced (n + 1)).Reads ⟨cs ++ rest, place⟩ [] ⟨rest, place + cs.length⟩ := by
  have hback : cs.dropWhile isSpace ≠ [] := by rwa [Ne, List.dropWhile_eq_nil_iff]
  have hfront : ∀ x ∈ cs.takeWhile isSpace, isSpace x = true := fun x => List.mem_takeWhile_imp
  have hhead : ∀ x ∈ (cs.dropWhile isSpace ++ rest).head?, isSpace x = false := by
    intro x hx
    rw [List.head?_append_of_ne_nil _ hback, ← List.find?_not_eq_head?_dropWhile] at hx
    simpa using List.find?_some hx
  have hread : (spaced (n + 1)).Reads _ _ _ := (reads_spaces hfront hhead place).bind
    (reads_element_text (hcs.of_suffix (List.dropWhile_suffix _)) hback hrest n _)
  rwa [← List.append_assoc, List.takeWhile_append_dropWhile, Nat.add_assoc, ← List.length_append,
    List.takeWhile_append_dropWhile] at hread

lemma not_isSpace_text (h : Hole) (rest : List Char) :
    ∀ x ∈ (h.text ++ rest).head?, isSpace x = false := by
  have hhead : (h.text ++ rest).head? = some '\x7b' := by
    cases hb : h.braces <;> simp [Hole.text, hb, Braces.opening]
  intro x hx
  obtain rfl : '\x7b' = x := Option.some.inj (hhead.symm.trans hx)
  decide

lemma Hole.length_text_pos (h : Hole) : 0 < h.text.length := by
  have hopening : 0 < h.braces.opening.length := by
    cases h.braces <;> simp [Braces.opening]
  rw [h.length_text]
  omega

lemma reads_spaced_hole (hcs : ∀ x ∈ cs, isSpace x = true) (h : Hole) (rest : List Char)
    (n place : ℕ) :
    (spaced (n + 1)).Reads ⟨cs ++ (h.text ++ rest), place⟩ [h.tag (place + cs.length)]
      ⟨rest, place + cs.length + h.text.length⟩ :=
  (reads_spaces hcs (not_isSpace_text h rest) place).bind (reads_element_hole h rest n _)

lemma refuses_spaced (hcs : ∀ x ∈ cs, isSpace x = true) (n place : ℕ) :
    (spaced n).Refuses ⟨cs, place⟩ :=
  (reads_spaces_all hcs).bind_refuses (refuses_element_nil n _)

lemma length_pos_of_not_blank (h : ¬ ∀ x ∈ cs, isSpace x = true) : 0 < cs.length := by
  refine List.length_pos_iff.mpr ?_
  rintro rfl
  exact h (List.forall_mem_nil _)

/-- What comes after the last tag has none, and only blanks are left of it. -/
lemma repeats_last (hcs : IsText cs) (n place : ℕ) :
    ∃ tss c, (spaced (n + 1)).Repeats ⟨cs, place⟩ tss c ∧ tss.flatten = [] ∧
      ∀ x ∈ c.rest, isSpace x = true := by
  by_cases hblank : ∀ x ∈ cs, isSpace x = true
  · exact ⟨[], ⟨cs, place⟩, .stop (refuses_spaced hblank _ _), rfl, hblank⟩
  · have hread := reads_spaced_text hcs hblank (.inl rfl) n place
    have hend : (spaced (n + 1)).Refuses ⟨[], place + cs.length⟩ :=
      refuses_spaced (List.forall_mem_nil _) _ _
    rw [List.append_nil] at hread
    exact ⟨[[]], _, .step hread (length_pos_of_not_blank hblank) (.stop hend), rfl, by simp⟩

/-- Element after element, the tags are those of the template, and only blanks are left. -/
lemma repeats_spaced (hcs : IsText cs) (hparts : ∀ part ∈ parts, IsText part.2) (n place : ℕ) :
    ∃ tss c, (spaced (n + 1)).Repeats ⟨cs ++ spelled parts, place⟩ tss c ∧
      tss.flatten = tagsFrom (place + cs.length) parts ∧ ∀ x ∈ c.rest, isSpace x = true := by
  induction parts generalizing cs place with
  | nil =>
    rw [spelled, List.flatMap_nil, List.append_nil]
    exact repeats_last hcs n place
  | cons part parts ih =>
    obtain ⟨h, cs'⟩ := part
    obtain ⟨hcs', hparts⟩ := List.forall_mem_cons.mp hparts
    obtain ⟨tss, c, hrepeats, hflatten, hc⟩ := ih hcs' hparts (place + cs.length + h.text.length)
    have hpos := h.length_text_pos
    have hstops := stopsText_spelled ((h, cs') :: parts)
    rw [spelled_cons] at hstops ⊢
    rw [tagsFrom]
    by_cases hblank : ∀ x ∈ cs, isSpace x = true
    · have hread := reads_spaced_hole hblank h (cs' ++ spelled parts) n place
      refine ⟨[h.tag (place + cs.length)] :: tss, c, .step hread ?_ hrepeats, ?_, hc⟩
      · simp only [List.length_append]
        omega
      · rw [List.flatten_cons, hflatten, List.singleton_append]
    · -- the text is an element of its own
      have htext := reads_spaced_text hcs hblank hstops n place
      have hread : (spaced (n + 1)).Reads ⟨h.text ++ (cs' ++ spelled parts), place + cs.length⟩
          [h.tag (place + cs.length)] ⟨cs' ++ spelled parts, place + cs.length + h.text.length⟩ :=
        reads_spaced_hole (List.forall_mem_nil _) h (cs' ++ spelled parts) n (place + cs.length)
      refine ⟨[] :: [h.tag (place + cs.length)] :: tss, c,
        .step htext ?_ (.step hread ?_ hrepeats), ?_, hc⟩
      · simpa only [List.length_append, Nat.lt_add_left_iff_pos] using
          length_pos_of_not_blank hblank
      · simp only [List.length_append]
        omega
      · rw [List.flatten_cons, List.flatten_cons, hflatten, List.nil_append, List.singleton_append]

lemma reads_tags_of_first {c c' c'' : Cursor} {ts : List Tag} {tss : List (List Tag)}
    (hfirst : (element (n + 1)).Reads c ts c') (hrest : (spaced (n + 1)).Repeats c' tss c'') :
    (Grammar.tags (n + 2)).Reads c (ts ++ tss.flatten) c'' := by
  refine hfirst.optional.bind ?_
  exact hrest.many.bind (reads_pure _ _)

/-- The tags of a template are read with their places, and nothing else is. -/
lemma reads_tags (t : Interpolation) (n : ℕ) :
    ∃ c, (Grammar.tags (n + 2)).Reads ⟨t.text, 0⟩ t.tags c ∧ ∀ x ∈ c.rest, isSpace x = true := by
  obtain ⟨front, parts, hfront, hparts⟩ := t
  by_cases hne : front = []
  · subst hne
    cases parts with
    | nil =>
      have hnone : (element (n + 1)).Refuses ⟨[], 0⟩ := refuses_element_nil (n + 1) 0
      exact ⟨⟨[], 0⟩, hnone.optional.bind (reads_pure _ _), by simp⟩
    | cons part parts =>
      obtain ⟨h, cs⟩ := part
      obtain ⟨hcs, hparts⟩ := List.forall_mem_cons.mp hparts
      obtain ⟨tss, c, hrepeats, hflatten, hc⟩ := repeats_spaced hcs hparts n (0 + h.text.length)
      have hread := reads_tags_of_first (reads_element_hole h _ n 0) hrepeats
      refine ⟨c, ?_, hc⟩
      simpa [Interpolation.text, spelled, Interpolation.tags, tagsFrom, hflatten] using hread
  · obtain ⟨tss, c, hrepeats, hflatten, hc⟩ :=
      repeats_spaced (List.forall_mem_nil _) hparts n (0 + front.length)
    have hread := reads_tags_of_first
      (reads_element_text hfront hne (stopsText_spelled parts) n 0) hrepeats
    refine ⟨c, ?_, hc⟩
    simpa [Interpolation.text, Interpolation.tags, hflatten] using hread

/-- A template is read as the tags that it was put together from. -/
theorem Interpolation.read_text (t : Interpolation) : Grammar.read t.text = .ok t.tags := by
  obtain ⟨c, htags, hc⟩ := reads_tags t (3 * t.text.length + 1)
  have hspaces := reads_spaces_all hc
  have hend : (char fun _ => true).Refuses ⟨[], c.place + c.rest.length⟩ := refuses_char (by simp)
  have hread : (do
      let ts ← Grammar.tags (3 * t.text.length + 3)
      spaces
      Rule.construct (Rule.absent (char fun _ => true))
      return ts : Rule (List Tag)).Reads ⟨t.text, 0⟩ t.tags
        ⟨[], c.place + c.rest.length⟩ := by
    refine htags.bind (hspaces.bind ?_)
    exact hend.absent.construct.bind (reads_pure _ _)
  obtain ⟨far, hfar⟩ := hread .wanted 0
  simp only [Grammar.read, hfar]

end CompiledViews.Template
