import CompiledViews.Path.Component

/-! Paths resolved by their text alone. A step up takes back the name before it, stays at the start
of a relative path, and goes nowhere at the root. -/

namespace CompiledViews.Path

/-- A resolved path: from the root, or some steps up from where one is, and then down through
names, the last of which comes first. -/
structure Resolved where
  absolute : Bool
  ups : Nat
  names : List String
  deriving Repr, DecidableEq

namespace Resolved

/-- Where one is. -/
def here : Resolved := ⟨false, 0, []⟩

def step (r : Resolved) : Component → Resolved
  | .root => ⟨true, 0, []⟩
  | .here => r
  | .up =>
    match r.names with
    | _ :: names => { r with names := names }
    | [] => if r.absolute then r else { r with ups := r.ups + 1 }
  | .name s => { r with names := s :: r.names }

def ofComponents (cs : List Component) : Resolved := cs.foldl step here

def components (r : Resolved) : List Component :=
  (if r.absolute then [.root] else List.replicate r.ups .up) ++ r.names.reverse.map .name

/-- The text of a resolved path; a dot if there is nothing else to say. -/
def text (r : Resolved) : String :=
  if r.components.isEmpty then "." else Path.ofComponents r.components

end Resolved

/-- Resolves a path without looking at any file. -/
def resolve (path : String) : Resolved := Resolved.ofComponents (components path)

/-- The text of the resolved path. -/
def normalize (path : String) : String := (resolve path).text

end CompiledViews.Path
