import CompiledViews.Proofs.Naming
import CompiledViews.Proofs.Text.Split
import Mathlib.Computability.Language

/-! The segments of a dotted name. A text is one exactly when all that stands between its dots are
segments, which is the language of a segment and then any number of dots with a segment each; and
the last segment of a type's name is its own name. -/

namespace CompiledViews

namespace Naming

open Text
open scoped Computability

variable {cs piece : List Char} {pieces : List (List Char)}

/-- A name without dots: a letter or an underscore, and then letters, digits and underscores. -/
def IsSegment (cs : List Char) : Prop :=
  ∃ c rest, cs = c :: rest ∧ isStart c = true ∧ ∀ d ∈ rest, isPart d = true

/-- The segments, as words. -/
def segment : Language Char := {cs | IsSegment cs}

/-- A segment, and then any number of dots with a segment after each. -/
def dotted : Language Char := segment * ({['.']} * segment)∗

def isDot (c : Char) : Bool := c = '.'

lemma isDot_eq_false_of_isPart {c : Char} (h : isPart c = true) : isDot c = false := by
  rw [isDot, decide_eq_false_iff_not]
  rintro rfl
  revert h
  decide

lemma IsSegment.isPart (h : IsSegment cs) : ∀ c ∈ cs, isPart c = true := by
  obtain ⟨c, rest, rfl, hstart, hrest⟩ := h
  exact List.forall_mem_cons.mpr ⟨isPart_of_isStart hstart, hrest⟩

lemma IsSegment.no_dot (h : IsSegment cs) : ∀ c ∈ cs, isDot c = false :=
  fun c hc => isDot_eq_false_of_isPart (h.isPart c hc)

/-- Within a segment it only matters what the characters are. -/
lemma scan_false_of_no_dot (h : ∀ c ∈ cs, isDot c = false) :
    scan false cs = true ↔ ∀ c ∈ cs, isPart c = true := by
  induction cs with
  | nil => simp [scan]
  | cons c cs ih =>
    rw [List.forall_mem_cons] at h ⊢
    have hdot : c ≠ '.' := by simpa [isDot] using h.1
    rw [scan, if_neg (by simp), if_neg hdot, Bool.and_eq_true, ih h.2]

theorem scan_true_of_no_dot (h : ∀ c ∈ cs, isDot c = false) :
    scan true cs = true ↔ IsSegment cs := by
  cases cs with
  | nil => simp [scan, IsSegment]
  | cons c cs =>
    rw [List.forall_mem_cons] at h
    rw [scan, if_pos rfl, Bool.and_eq_true, scan_false_of_no_dot h.2]
    simp [IsSegment]

/-- A text is its first piece, and then the others with a dot before each. -/
lemma exists_pieces (cs : List Char) : ∃ piece pieces, splitList isDot cs = piece :: pieces ∧
    cs = piece ++ pieces.flatMap ('.' :: ·) := by
  obtain ⟨piece, pieces, hsplit⟩ := List.exists_cons_of_ne_nil (splitList_ne_nil isDot cs)
  refine ⟨piece, pieces, hsplit, eq_append_flatMap_of_splitList (fun c hc => ?_) hsplit⟩
  simpa [isDot] using hc

/-- A text is scanned piece by piece. -/
theorem scan_append_flatMap (piece : List Char) (pieces : List (List Char)) :
    scan true (piece ++ pieces.flatMap ('.' :: ·)) =
      (scan true piece && pieces.all (scan true)) := by
  induction pieces generalizing piece with
  | nil => simp
  | cons next pieces ih =>
    rw [List.flatMap_cons, List.cons_append, scan_append_dot, ih, List.all_cons]

/-- A text is a dotted name exactly when the pieces between its dots are segments. -/
theorem scan_iff_forall_isSegment (cs : List Char) :
    scan true cs = true ↔ ∀ piece ∈ splitList isDot cs, IsSegment piece := by
  obtain ⟨piece, pieces, hsplit, hcs⟩ := exists_pieces cs
  have hpieces : ∀ p ∈ piece :: pieces, scan true p = true ↔ IsSegment p := fun p hp =>
    scan_true_of_no_dot (not_mem_of_mem_splitList (hsplit ▸ hp))
  rw [hsplit, hcs, scan_append_flatMap, ← List.all_cons, List.all_eq_true]
  exact forall₂_congr hpieces

lemma mem_dot_mul_segment_iff (word : List Char) :
    word ∈ ({['.']} * segment : Language Char) ↔ ∃ piece, IsSegment piece ∧ '.' :: piece = word := by
  rw [Language.mem_mul]
  constructor
  · rintro ⟨_, rfl, piece, hpiece, hjoin⟩
    exact ⟨piece, hpiece, hjoin⟩
  · rintro ⟨piece, hpiece, hjoin⟩
    exact ⟨['.'], rfl, piece, hpiece, hjoin⟩

/-- What may stand after the first segment: segments, a dot before each. -/
lemma mem_kstar_iff_exists_segments :
    cs ∈ ({['.']} * segment : Language Char)∗ ↔
      ∃ pieces : List (List Char), (∀ piece ∈ pieces, IsSegment piece) ∧
        cs = pieces.flatMap ('.' :: ·) := by
  rw [Language.mem_kstar]
  constructor
  · rintro ⟨words, rfl, hwords⟩
    induction words with
    | nil => exact ⟨[], by simp, rfl⟩
    | cons word words ih =>
      rw [List.forall_mem_cons] at hwords
      obtain ⟨piece, hpiece, rfl⟩ := (mem_dot_mul_segment_iff word).mp hwords.1
      obtain ⟨pieces, hpieces, htail⟩ := ih hwords.2
      refine ⟨piece :: pieces, List.forall_mem_cons.mpr ⟨hpiece, hpieces⟩, ?_⟩
      rw [List.flatten_cons, htail, List.flatMap_cons]
  · rintro ⟨pieces, hpieces, rfl⟩
    refine ⟨pieces.map ('.' :: ·), List.flatMap_def, fun word hword => ?_⟩
    obtain ⟨piece, hpiece, rfl⟩ := List.mem_map.mp hword
    exact (mem_dot_mul_segment_iff _).mpr ⟨piece, hpieces piece hpiece, rfl⟩

/-- The words of the language are the texts whose pieces between dots are segments. -/
theorem mem_dotted_iff (cs : List Char) :
    cs ∈ dotted ↔ ∀ piece ∈ splitList isDot cs, IsSegment piece := by
  constructor
  · intro hcs
    obtain ⟨piece, hpiece, _, htail, rfl⟩ := Language.mem_mul.mp hcs
    obtain ⟨pieces, hpieces, rfl⟩ := mem_kstar_iff_exists_segments.mp htail
    have hcut : splitList isDot (pieces.flatMap ('.' :: ·)) = [] :: pieces :=
      splitList_flatMap rfl fun p hp => (hpieces p hp).no_dot
    rw [splitList_append_of_forall (IsSegment.no_dot hpiece), hcut, List.modifyHead_cons,
      List.append_nil]
    exact List.forall_mem_cons.mpr ⟨hpiece, hpieces⟩
  · intro hall
    obtain ⟨piece, pieces, hsplit, hcs⟩ := exists_pieces cs
    rw [hsplit, List.forall_mem_cons] at hall
    rw [hcs]
    exact Language.append_mem_mul hall.1 (mem_kstar_iff_exists_segments.mpr ⟨pieces, hall.2, rfl⟩)

/-- The dotted names are the words of the language. -/
theorem isQualifiedName_iff_mem_dotted (s : String) :
    isQualifiedName s = true ↔ s.toList ∈ dotted :=
  (scan_iff_forall_isSegment s.toList).trans (mem_dotted_iff s.toList).symm

/-- The dotted names are the texts whose pieces between dots are segments. -/
theorem isQualifiedName_iff_forall_isSegment (s : String) :
    isQualifiedName s = true ↔ ∀ piece ∈ split isDot s, IsSegment piece.toList := by
  simpa [split, isQualifiedName] using scan_iff_forall_isSegment s.toList

end Naming

open Text

namespace TypeName

variable {s : String} {t : TypeName}

theorem ofText?_eq_some_iff :
    ofText? s = some t ↔ isQualifiedName (trim s) = true ∧ cut (trim s).toList = t := by
  rw [ofText?, Option.ite_none_right_eq_some, Option.some.injEq]

/-- A name is cut at its last dot. -/
lemma no_dot_name_cut (cs : List Char) : ∀ c ∈ (cut cs).name.toList, Naming.isDot c = false := by
  have hname : (cut cs).name.toList = (cs.reverse.takeWhile (· ≠ '.')).reverse := by
    rw [cut]
    split <;> simp
  intro c hc
  rw [hname, List.mem_reverse] at hc
  simpa [Naming.isDot] using List.mem_takeWhile_imp hc

/-- A type that a text spells: its parts, joined by a dot, are the text, and each is what it has to
be; so it is read from what is written for it. -/
structure SpelledBy (t : TypeName) (s : String) : Prop where
  text_eq : t.text = trim s
  name : Naming.IsSegment t.name.toList
  ns : ∀ ns ∈ t.ns, isQualifiedName ns = true
  read : ofText? t.text = some t

theorem SpelledBy.of_ofText? (h : ofText? s = some t) : t.SpelledBy s := by
  have hparts := Spelled.qualified ⟨s, h⟩
  obtain ⟨hname, rfl⟩ := ofText?_eq_some_iff.mp h
  have htext : (cut (trim s).toList).text = trim s := String.toList_inj.mp (toList_text_cut _)
  exact {
    text_eq := htext
    name := (Naming.scan_true_of_no_dot (no_dot_name_cut _)).mp hparts.2
    ns := hparts.1
    read := by rw [htext, ofText?_eq_some_iff, trim_trim]; exact ⟨hname, rfl⟩ }

end TypeName

end CompiledViews
