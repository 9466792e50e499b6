import CompiledViews.CommandLine.Run
import CompiledViews.Proofs.Cache.Verdicts
import CompiledViews.Proofs.Source.Registration

/-!
Checking and rendering. Either command builds an engine of its own, and what a check says of a path,
every rendering of it bears out.
-/

namespace CompiledViews.CommandLine

open Text

/-! Names of modules. -/

section Engine

variable {t : FileTree} {c : Config} {e : Engine} {i : Invocation}
  {key path : String} {paths : List String} {arg : Option String} {model : Json}
  {error : ViewError} {r : Report}

/-- The sources of a project, of which nothing has been looked up. -/
def snapshots (c : Config) (e : Engine) : SnapshotMap :=
  { registry := e.registry, recipe := ⟨c.generation, c.references⟩, nameOf := moduleName }

/-- An engine on which nothing has been looked up answers as the snapshot map does. -/
lemma warm_eq (h : AtRest e.cache (snapshots c e)) (t : FileTree) (paths : List String) :
    (e.warm t paths).1 = ((snapshots c e).warm t paths).1 ∧
      AtRest (e.warm t paths).2.cache ((snapshots c e).warm t paths).2 := by
  obtain ⟨hreply, hrest⟩ := h.obey_eq t (.warm paths)
  exact ⟨Reply.warmed.inj hreply, hrest⟩

end Engine

end CompiledViews.CommandLine
