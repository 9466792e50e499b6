import CompiledViews.Engine
import CompiledViews.Proofs.Cache.Alone
import CompiledViews.Proofs.Module.Loading

/-!
The snapshot map. It knows no entries, slots, releases or hosts, only the content that each path was
last compiled from, and makes everything else anew from that.
-/

namespace CompiledViews

/-- How code is generated, and which namespaces it may import. -/
structure Recipe where
  generation : Generation
  references : List String

/-- The tree of a module, or what is wrong with the content that it is to be made from. -/
def Recipe.build (r : Recipe) (module : String) (content : Content) :
    Except ViewError.Cause (List Template.Node) :=
  match translate r.generation module content with
  | .error ds => .error (.translation ds)
  | .ok m =>
    match compile r.references module m.code with
    | .error e => .error (.compilation e.diagnostics e.code)
    | .ok m => (Template.parse m.body).mapError fun f =>
        .notLoaded (LoadError.notInitialized m.module f.message).message

/-- What a view was made from: the content of a path, as a module of some name. -/
structure Snapshot where
  id : Nat
  path : String
  module : String
  content : Content

/-- The snapshots of the paths that are mapped, and all that views were ever made from. -/
structure SnapshotMap where
  registry : Registry
  recipe : Recipe
  nameOf : Nat → String
  begun : Nat := 0
  issued : List Snapshot := []
  mapped : Table Snapshot := {}

namespace SnapshotMap

/-- A snapshot is mapped as long as its path has no other or none. -/
def Maps (a : SnapshotMap) (s : Snapshot) : Prop := (a.mapped.get? s.path).map (·.id) = some s.id

instance (a : SnapshotMap) (s : Snapshot) : Decidable (a.Maps s) :=
  inferInstanceAs (Decidable ((a.mapped.get? s.path).map (·.id) = some s.id))

/-- Compiles the current content of a path, and maps it if that succeeds. -/
def compile (a : SnapshotMap) (t : FileTree) (key : String) : Answer × SnapshotMap :=
  match a.registry.lookup key with
  | none => (.error ⟨key, .unknownSource⟩, a)
  | some source =>
    match source.open_ t with
    | .error e => (.error ⟨key, .unreadable e.message⟩, a)
    | .ok content =>
      let module := a.nameOf (a.begun + 1)
      let a := { a with begun := a.begun + 1 }
      match a.recipe.build module content with
      | .error cause => (.error ⟨key, cause⟩, a)
      | .ok _ =>
        let s : Snapshot := ⟨a.issued.length, key, module, content⟩
        (.view s.id, { a with issued := a.issued ++ [s], mapped := a.mapped.insert key s })

/-- A mapped path is answered from its snapshot, whatever has become of the source. -/
def lookup (a : SnapshotMap) (t : FileTree) (key : String) : Answer × SnapshotMap :=
  match a.mapped.get? key with
  | some s => (.view s.id, a)
  | none => a.compile t key

/-- A mapped path is unmapped and compiled; with any other there is nothing to do. -/
def invalidate (a : SnapshotMap) (t : FileTree) (key : String) : Answer × SnapshotMap :=
  match a.mapped.get? key with
  | some _ => { a with mapped := a.mapped.erase key }.compile t key
  | none => (.nothing, a)

def clear (a : SnapshotMap) : Answer × SnapshotMap :=
  (.cleared a.mapped.size, { a with mapped := {} })

/-- A snapshot that is mapped is translated, compiled and rendered; one that is not has been
released. -/
def renderSnapshot (a : SnapshotMap) (s : Snapshot) (model : Json) : Answer :=
  if a.Maps s then
    match a.recipe.build s.module s.content with
    | .error cause => .error ⟨s.path, cause⟩
    | .ok nodes =>
      match Template.render s.module nodes model with
      | .ok text => .text text
      | .error f => .error ⟨s.path, .notRendered (.template (f.text s.module))⟩
  else .error ⟨s.path, .notRendered (.released s.module)⟩

/-- Renders a view that was returned before. -/
def render (a : SnapshotMap) (id : Nat) (model : Json) : Answer :=
  match a.issued[id]? with
  | none => .nothing
  | some s => a.renderSnapshot s model

/-- A view that was looked up to be rendered is rendered. -/
def settle (a : SnapshotMap) : Request → Answer → Answer
  | .render _ model, .view id => a.render id model
  | _, answer => answer

/-- Answers a request, with the path in whatever spelling. -/
def answer (a : SnapshotMap) (t : FileTree) : Request → Answer × SnapshotMap
  | .lookup path => a.lookup t (Path.normalizeLogical path)
  | .invalidate path => a.invalidate t (Path.normalizeLogical path)
  | .render path model =>
    let (answer, a) := a.lookup t (Path.normalizeLogical path)
    (a.settle (.render path model) answer, a)
  | .get path =>
    (((a.mapped.get? (Path.normalizeLogical path)).map fun s => Answer.view s.id).getD .nothing, a)
  | .clear => a.clear

/-- Answers requests one after the other. -/
def serve (a : SnapshotMap) (t : FileTree) : List Request → List Answer × SnapshotMap
  | [] => ([], a)
  | q :: rest =>
    let (answer, a) := a.answer t q
    let (answers, a) := a.serve t rest
    (answer :: answers, a)

/-- Looks up paths, each given back in its canonical spelling with the answer. -/
def warm (a : SnapshotMap) (t : FileTree) :
    List String → List (String × Answer) × SnapshotMap
  | [] => ([], a)
  | path :: rest =>
    let key := Path.normalizeLogical path
    let (answer, a) := a.lookup t key
    let (answers, a) := a.warm t rest
    ((key, answer) :: answers, a)

variable {a : SnapshotMap} {t : FileTree} {q : Request} {key : String}

lemma answer_of_lookupKey? (h : q.lookupKey? = some key) : a.answer t q =
    ((a.lookup t key).2.settle q (a.lookup t key).1, (a.lookup t key).2) := by
  cases q <;> cases h <;> rfl

lemma answer_of_invalidationKey? (h : q.invalidationKey? = some key) :
    a.answer t q = a.invalidate t key := by
  cases q <;> cases h
  rfl

lemma settle_of_invalidationKey? (h : q.invalidationKey? = some key) (answer : Answer) :
    a.settle q answer = answer := by
  cases q <;> cases h
  rfl

end SnapshotMap

namespace Workshop

variable {w : Workshop} {r : Recipe} {content : Content} {nodes : List Template.Node}
  {cause : ViewError.Cause}

/-- What cannot be built cannot be made, for the same reason. -/
lemma make_of_build_error (path : String)
    (hw : w.tools = .standard r.generation r.references)
    (h : r.build (w.nameOf (w.begun + 1)) content = .error cause) :
    w.make path content = (.error ⟨path, cause⟩, { w with begun := w.begun + 1 }) := by
  cases htranslate : translate r.generation (w.nameOf (w.begun + 1)) content with
  | error ds =>
    simp only [Recipe.build, htranslate] at h
    cases h
    simp [make, hw, Toolchain.standard, htranslate, Except.map, Except.mapError]
  | ok m =>
    cases hcompile : compile r.references (w.nameOf (w.begun + 1)) m.code with
    | error e =>
      simp only [Recipe.build, htranslate, hcompile] at h
      cases h
      simp [make, hw, Toolchain.standard, htranslate, hcompile, Except.map, Except.mapError]
    | ok m' =>
      -- whatever compiles can be loaded
      obtain ⟨-, nodes, hbody⟩ := of_compile_eq_ok hcompile
      simp only [Recipe.build, htranslate, hcompile, hbody] at h
      cases h

/-- What can be built is made into a view of a module that refuses nothing. -/
lemma make_of_build_ok (path : String) (hw : w.tools = .standard r.generation r.references)
    (h : r.build (w.nameOf (w.begun + 1)) content = .ok nodes) :
    ∃ (m : Manifest) (host : Host), m.module = w.nameOf (w.begun + 1) ∧
      w.make path content = (.ok { path := path, ns := w.ns, module := m.loaded nodes },
        { w with begun := w.begun + 1, host := host }) := by
  cases htranslate : translate r.generation (w.nameOf (w.begun + 1)) content with
  | error ds => simp [Recipe.build, htranslate] at h
  | ok m =>
    cases hcompile : compile r.references (w.nameOf (w.begun + 1)) m.code with
    | error e => simp [Recipe.build, htranslate, hcompile] at h
    | ok m' =>
      obtain ⟨hname, nodes', hbody⟩ := of_compile_eq_ok hcompile
      simp only [Recipe.build, htranslate, hcompile, hbody] at h
      obtain rfl : nodes' = nodes := Except.ok.inj h
      refine ⟨m', w.host.insert m'.module ⟨m'.ns, m'.inherits⟩, hname, ?_⟩
      simp [make, hw, Toolchain.standard, htranslate, hcompile, Except.map, Except.mapError,
        load_image hbody]

end Workshop

end CompiledViews
