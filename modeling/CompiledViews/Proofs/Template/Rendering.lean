import CompiledViews.Proofs.Template.Nodes
import CompiledViews.Template.Render

/-!
Rendering a template that is text with tags in between. Each text is printed as it is, and so is the
text of each field; a field that the model does not have prints nothing.
-/

namespace CompiledViews.Template

/-- What has been printed so far. -/
def State.text (s : State) : String := String.join s.out.reverse

/-- At the top level of a template nothing is indented, and names are those of the model. -/
def State.AtTop (s : State) : Prop := s.indent = [] ∧ s.frames = [{ }]

namespace Action

/-- At the top level an action prints a text, and changes nothing else. -/
def Prints (a : Action) (text : String) : Prop :=
  ∀ s : State, s.AtTop → ∃ out, a s = .ok { s with out := out } ∧
    State.text { s with out := out } = s.text ++ text

variable {a b : Action} {text text' : String}

theorem prints_skip : skip.Prints "" := fun s _ => ⟨s.out, rfl, by simp⟩

theorem prints_write (text : String) : (write text).Prints text := by
  intro s hs
  by_cases hempty : text = ""
  · subst hempty
    exact ⟨s.out, rfl, by simp⟩
  · refine ⟨text :: s.out, ?_, ?_⟩
    · simp [write, hempty, hs.1]
    · rw [← String.toList_inj]
      simp [State.text, String.toList_join]

theorem Prints.andThen (ha : a.Prints text) (hb : b.Prints text') :
    (a.andThen b).Prints (text ++ text') := by
  intro s hs
  obtain ⟨out, hout, htext⟩ := ha s hs
  obtain ⟨out', hout', htext'⟩ := hb { s with out := out } hs
  refine ⟨out', ?_, ?_⟩
  · rw [Action.andThen, hout]
    exact hout'
  · rw [htext', htext, String.append_assoc]

theorem Prints.located (ha : a.Prints text) (p : Option Position) : (a.located p).Prints text := by
  intro s hs
  obtain ⟨out, hout, htext⟩ := ha s hs
  exact ⟨out, by rw [Action.located, hout], htext⟩

end Action

open Interpolation

variable {fields : List (String × Json)} {parts : List (Hole × List Char)} {scene : Scene}
  {run : Option String → List Node → Action}

/-- The text of a field, if there is such a field. -/
def fieldText (fields : List (String × Json)) (name : String) : String :=
  match Json.field? fields name with
  | some (.str s) => s
  | _ => ""

/-- The fields that the tags of a template name are strings, as far as the model has them. -/
def HasTexts (fields : List (String × Json)) (parts : List (Hole × List Char)) : Prop :=
  ∀ part ∈ parts, ∀ value ∈ Json.field? fields part.1.name, ∃ s, value = .str s

/-- What a template prints where the fields have the given texts. -/
def Interpolation.filled (t : Interpolation) (value : String → String) : String :=
  String.ofList (t.front ++ t.rest.flatMap fun part => (value part.1.name).toList ++ part.2)

/-- At the top level a name leads to the field of the model. -/
lemma findPath_field (fields : List (String × Json)) (name : String) :
    ∃ found, findPath (.obj fields) [{ }] [.field name] = .ok found ∧
      found.value = (Json.field? fields name).getD .null := by
  cases hfield : Json.field? fields name with
  | none =>
    refine ⟨.missing, ?_, rfl⟩
    simp [findPath, boundIn?, Frame.below, foundAt, descend, pick, fieldNames, hfield, pure,
      Except.pure]
  | some value =>
    refine ⟨⟨value, some [name]⟩, ?_, rfl⟩
    simp [findPath, boundIn?, Frame.below, foundAt, descend, pick, fieldNames, hfield, pure,
      Except.pure]

/-- A tag prints the text of its field. -/
lemma prints_hole (h : Hole) (hscene : scene.model = .obj fields)
    (hfield : ∀ value ∈ Json.field? fields h.name, ∃ s, value = .str s) :
    (printValue scene h.call).Prints (fieldText fields h.name) := by
  intro s hs
  obtain ⟨found, hfound, hvalue⟩ := findPath_field fields h.name
  have hshown : found.value.shown = fieldText fields h.name := by
    rw [hvalue, fieldText]
    cases hf : Json.field? fields h.name with
    | none => simp
    | some value =>
      obtain ⟨text, rfl⟩ := hfield value hf
      simp
  have hprint : printValue scene h.call s = Action.write found.value.shown s := by
    simp [printValue, Hole.call, Action.ask, Expr.evalName, Expr.eval, h.isFieldName.noHelper,
      hscene, hs.2, hfound]
  rw [hprint, hshown]
  exact Action.prints_write _ s hs

/-- Nodes are rendered one after the other. -/
lemma nodesAction_append (nodes nodes' : List Node) :
    nodesAction scene run (nodes ++ nodes') =
      (nodesAction scene run nodes).andThen (nodesAction scene run nodes') := by
  induction nodes with
  | nil => rfl
  | cons node nodes ih =>
    funext s
    rw [List.cons_append, nodesAction, nodesAction, ih]
    simp only [Action.andThen]
    cases node.action scene run s <;> rfl

lemma prints_textNodes (scene : Scene) (run : Option String → List Node → Action)
    (cs : List Char) :
    (nodesAction scene run (textNodes cs)).Prints (String.ofList cs) := by
  by_cases hne : cs = []
  · subst hne
    exact Action.prints_skip
  · rw [textNodes, if_neg hne, nodesAction, Node.action]
    have hprints := (Action.prints_write (String.ofList cs)).andThen Action.prints_skip
    rwa [String.append_empty] at hprints

lemma prints_nodesFrom (run : Option String → List Node → Action) (template : List Char)
    (place : ℕ) (hscene : scene.model = .obj fields)
    (hfields : HasTexts fields parts) :
    (nodesAction scene run (nodesFrom template place parts)).Prints
      (String.ofList (parts.flatMap fun part =>
        (fieldText fields part.1.name).toList ++ part.2)) := by
  induction parts generalizing place with
  | nil => exact Action.prints_skip
  | cons part parts ih =>
    obtain ⟨h, cs⟩ := part
    obtain ⟨hfield, hfields⟩ := List.forall_mem_cons.mp hfields
    have hrest := (prints_textNodes scene run cs).andThen
      (ih (place + h.text.length + cs.length) hfields)
    rw [← nodesAction_append] at hrest
    have hprints := ((prints_hole h hscene hfield).located
      (some (Position.at template place))).andThen hrest
    rw [nodesFrom, nodesAction, Node.action]
    simpa using hprints

/-- A template is rendered as its texts with the texts of the fields in between. -/
theorem Interpolation.render_nodes (t : Interpolation) (name : String)
    (hfields : HasTexts fields t.rest) :
    render name t.nodes (.obj fields) = .ok (t.filled (fieldText fields)) := by
  let scene : Scene := ⟨name, .obj fields, t.nodes⟩
  have hscene : scene.model = .obj fields := rfl
  let run := Template.run scene 199
  have hprints := (prints_textNodes scene run t.front).andThen
    (prints_nodesFrom run t.text t.front.length hscene hfields)
  rw [← nodesAction_append] at hprints
  obtain ⟨out, hout, htext⟩ := hprints { template := some name } ⟨rfl, rfl⟩
  have hrun : Template.run scene maxDepth (some name) t.nodes { } =
      .ok { template := some name, out := out } := hout
  rw [render, hrun]
  refine congrArg Except.ok (htext.trans ?_)
  simp [State.text, Interpolation.filled]

end CompiledViews.Template
