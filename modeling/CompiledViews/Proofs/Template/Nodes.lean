import CompiledViews.Proofs.Except
import CompiledViews.Proofs.Template.Interpolation

/-!
The tree of a template that is text with tags in between. The layout leaves the text as it is, since
a tag that prints a value takes no blanks and no line with it.
-/

namespace CompiledViews.Template

namespace Interpolation

def textSegments (cs : List Char) : List Segment := if cs = [] then [] else [.text cs]

def textNodes (cs : List Char) : List Node := if cs = [] then [] else [.text (String.ofList cs)]

@[simp] lemma reverse_textSegments (cs : List Char) :
    (textSegments cs).reverse = textSegments cs := by
  unfold textSegments
  split <;> rfl

@[simp] lemma reverse_textNodes (cs : List Char) : (textNodes cs).reverse = textNodes cs := by
  unfold textNodes
  split <;> rfl

/-- The segments from a tag on that is at the given place. -/
def segmentsFrom (place : ℕ) : List (Hole × List Char) → List Segment
  | [] => []
  | (h, cs) :: parts => .tag (h.tag place) ::
      (textSegments cs ++ segmentsFrom (place + h.text.length + cs.length) parts)

/-- The nodes from a tag on that is at the given place of a template. -/
def nodesFrom (template : List Char) (place : ℕ) : List (Hole × List Char) → List Node
  | [] => []
  | (h, cs) :: parts => .value (Position.at template place) h.call ::
      (textNodes cs ++ nodesFrom template (place + h.text.length + cs.length) parts)

def segments (t : Interpolation) : List Segment :=
  textSegments t.front ++ segmentsFrom t.front.length t.rest

def nodes (t : Interpolation) : List Node :=
  textNodes t.front ++ nodesFrom t.text t.front.length t.rest

end Interpolation

open Interpolation

namespace Layout

variable {s : State} {cs : List Char} {parts : List (Hole × List Char)}

/-- Nothing that came before bears on the text that follows. -/
def State.Open (s : State) : Prop := s.trims = false ∧ s.takesLine = false

lemma unescape_of_isText (fenced : Bool) (h : IsText cs) : unescape fenced cs = cs := by
  induction cs with
  | nil => simp [unescape]
  | cons c cs ih =>
    obtain ⟨hc, hcs⟩ := List.forall_mem_cons.mp h
    rw [unescape, ih hcs]
    all_goals
      rintro _ rfl
      exact absurd rfl hc.2

lemma addText_of_isText (h : s.Open) (fenced : Bool) (hcs : IsText cs) :
    s.addText false fenced cs = { s with segments := textSegments cs ++ s.segments } := by
  obtain ⟨htrims, htakes⟩ := h
  by_cases hne : cs = []
  · simp [State.addText, textSegments, hne]
  · simp [State.addText, textSegments, hne, htrims, htakes, unescape_of_isText fenced hcs]

/-- A tag that prints a field is added as it is. -/
lemma addTag_hole (s : State) (before after : List Char) (h : Hole) (place : ℕ) :
    s.addTag before after (h.tag place) =
      { s with trims := false, segments := .tag (h.tag place) :: s.segments } := rfl

/-- The layout of what follows a place is the text up to the next tag, the tag, and so on. -/
lemma segments_go (h : s.Open) (hcs : IsText cs) (hparts : ∀ part ∈ parts, IsText part.2)
    (place : ℕ) (before : List Char) :
    (go s place before (cs ++ spelled parts) (tagsFrom (place + cs.length) parts)).segments =
      (textSegments cs ++ segmentsFrom (place + cs.length) parts).reverse ++ s.segments := by
  induction parts generalizing s cs place before with
  | nil =>
    rw [spelled, List.flatMap_nil, List.append_nil, tagsFrom, go, addText_of_isText h false hcs,
      segmentsFrom, List.append_nil, reverse_textSegments]
  | cons part parts ih =>
    obtain ⟨h', cs'⟩ := part
    have hcs' : IsText cs' := hparts _ List.mem_cons_self
    replace hparts := (List.forall_mem_cons.mp hparts).2
    have hbetween : (cs ++ spelled ((h', cs') :: parts)).take
        ((h'.tag (place + cs.length)).start - place) = cs := by
      simp [Hole.tag]
    have hafter : (cs ++ spelled ((h', cs') :: parts)).drop
        ((h'.tag (place + cs.length)).stop - place) = cs' ++ spelled parts := by
      rw [spelled_cons, ← List.append_assoc]
      refine List.drop_left' ?_
      simp [Hole.tag]
      omega
    have hraw : isRawClose (h'.tag (place + cs.length)).role = false := rfl
    rw [tagsFrom, go]
    simp only [hbetween, hafter, hraw, addText_of_isText h true hcs, addTag_hole]
    have hopen : State.Open { s with
        trims := false
        segments := .tag (h'.tag (place + cs.length)) :: (textSegments cs ++ s.segments) } :=
      ⟨rfl, h.2⟩
    rw [show (h'.tag (place + cs.length)).stop = place + cs.length + h'.text.length from rfl,
      ih hopen hcs' hparts]
    simp [segmentsFrom]

end Layout

/-- The segments of a template are the texts and the tags that it was put together from. -/
theorem Interpolation.layout_text (t : Interpolation) : layout t.text t.tags = t.segments := by
  have hopen : Layout.State.Open {} := ⟨rfl, rfl⟩
  have hgo := Layout.segments_go hopen t.front_isText t.rest_isText 0 []
  rw [Nat.zero_add] at hgo
  rw [layout, Interpolation.text, Interpolation.tags, hgo]
  simp [segments]

/-! The nodes. -/

lemma foldlM_textSegments (template cs : List Char) (g : Growth) :
    (textSegments cs).foldlM (Growth.add template) g =
      .ok { g with nodes := textNodes cs ++ g.nodes } := by
  by_cases hne : cs = []
  · simp [textSegments, textNodes, hne, pure, Except.pure]
  · simp [textSegments, textNodes, hne, Growth.add, pure, Except.pure]

lemma add_hole (template : List Char) (g : Growth) (h : Hole) (place : ℕ) :
    g.add template (.tag (h.tag place)) =
      .ok { g with nodes := .value (Position.at template place) h.call :: g.nodes } := rfl

lemma foldlM_segmentsFrom (template : List Char) (g : Growth) (place : ℕ)
    (parts : List (Hole × List Char)) :
    (segmentsFrom place parts).foldlM (Growth.add template) g =
      .ok { g with nodes := (nodesFrom template place parts).reverse ++ g.nodes } := by
  induction parts generalizing g place with
  | nil => rfl
  | cons part parts ih =>
    obtain ⟨h, cs⟩ := part
    rw [segmentsFrom, List.foldlM_cons, add_hole, Except.ok_bind, List.foldlM_append,
      foldlM_textSegments, Except.ok_bind, ih]
    simp [nodesFrom]

/-- A template is parsed as the nodes of its texts and its tags. -/
theorem Interpolation.parse_text (t : Interpolation) :
    parse (String.ofList t.text) = .ok t.nodes := by
  have hfold : t.segments.foldlM (Growth.add t.text) {} = .ok { nodes := t.nodes.reverse } := by
    rw [segments, List.foldlM_append, foldlM_textSegments, Except.ok_bind, foldlM_segmentsFrom]
    simp [nodes]
  unfold parse
  simp only [String.toList_ofList, read_text, layout_text, hfold, Except.ok_bind,
    List.reverse_reverse]
  rfl

end CompiledViews.Template
