import CompiledViews.Module.Basic

/-! What can go wrong between the path of a template and the text of its view. -/

namespace CompiledViews

inductive ViewError.Cause where
  | unknownSource
  | translation (diagnostics : List Diagnostic)
  | compilation (diagnostics : List Diagnostic) (code : String)
  | unreadable (reason : String)
  | notLoaded (reason : String)
  | notRendered (error : RenderError)
  | brokenOff (reason : String)
  deriving Repr, DecidableEq

structure ViewError where
  path : String
  cause : ViewError.Cause
  deriving Repr, DecidableEq

namespace ViewError

def message (e : ViewError) : String :=
  match e.cause with
  | .unknownSource => s!"no template registered at '{e.path}'"
  | .translation ds => s!"failed to translate '{e.path}':\n" ++ Diagnostic.listText ds
  | .compilation ds _ =>
    s!"generated code for '{e.path}' does not compile:\n" ++ Diagnostic.listText ds
  | .unreadable reason => s!"failed to read '{e.path}': {reason}"
  | .notLoaded reason => s!"failed to load module for '{e.path}': {reason}"
  | .notRendered error => s!"failed to render '{e.path}': {error.message}"
  | .brokenOff reason => s!"compile task for '{e.path}' did not complete: {reason}"

/-- The diagnostics of a template that could not be translated or compiled. -/
def diagnostics? (e : ViewError) : Option (List Diagnostic) :=
  match e.cause with
  | .translation ds | .compilation ds _ => some ds
  | _ => none

/-- The code that could not be compiled. -/
def code? (e : ViewError) : Option String :=
  match e.cause with
  | .compilation _ code => some code
  | _ => none

/-- The kind of an error in one word. -/
def kind (e : ViewError) : String :=
  match e.cause with
  | .unknownSource => "unknown_source"
  | .translation _ => "translation"
  | .compilation _ _ => "compilation"
  | .unreadable _ => "source_read"
  | .notLoaded _ => "module_load"
  | .notRendered _ => "render"
  | .brokenOff _ => "worker"

end ViewError

end CompiledViews
