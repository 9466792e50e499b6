import CompiledViews.View.Basic
import CompiledViews.View.Error

/-! The workshop where views are made: the content of a template becomes code, the code an image,
and the image a module. -/

namespace CompiledViews

/-- Why there is no code: the template is at fault, or the work broke off. -/
inductive TranslationError where
  | faults (diagnostics : List Diagnostic)
  | brokenOff (reason : String)
  deriving Repr, DecidableEq

/-- The three stages; the first two are given the name of the module. -/
structure Toolchain where
  translate : String → Content → Except TranslationError String
  compile : String → String → Except CompilationError Image
  load : Host → Image → Except LoadError (Module × Host)

/-- The stages for a way of generating code and the namespaces that may be imported. -/
def Toolchain.standard (g : Generation) (references : List String) : Toolchain where
  translate module c := ((CompiledViews.translate g module c).map Manifest.code).mapError .faults
  compile module code := (CompiledViews.compile references module code).map Manifest.image
  load := CompiledViews.load

/-- A workshop counts the modules begun, and no two of them are named alike. -/
structure Workshop where
  ns : String
  tools : Toolchain
  nameOf : Nat → String := fun n => s!"View_{n}"
  begun : Nat := 0
  host : Host := {}

/-- Makes the view of a template from its content. -/
def Workshop.make (w : Workshop) (path : String) (c : Content) :
    Except ViewError View × Workshop :=
  let module := w.nameOf (w.begun + 1)
  let w := { w with begun := w.begun + 1 }
  let fail (cause : ViewError.Cause) : Except ViewError View × Workshop := (.error ⟨path, cause⟩, w)
  match w.tools.translate module c with
  | .error (.faults ds) => fail (.translation ds)
  | .error (.brokenOff reason) => fail (.brokenOff reason)
  | .ok code =>
    match w.tools.compile module code with
    | .error e => fail (.compilation e.diagnostics e.code)
    | .ok image =>
      match w.tools.load w.host image with
      | .error e => fail (.notLoaded e.message)
      | .ok (loaded, host) =>
        (.ok { path := path, ns := w.ns, module := loaded }, { w with host := host })

end CompiledViews
