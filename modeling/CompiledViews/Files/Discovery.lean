import CompiledViews.Files.Tree
import CompiledViews.Files.Wildcard
import CompiledViews.Path.Logical

/-! Listing the files below a directory whose names match a wildcard. Links are followed. -/

namespace CompiledViews

/-- Why files could not be listed. -/
inductive ListingError where
  | pattern (pattern : String) (fault : Wildcard.Fault)
  | loop (path : String)
  | unreadable (path : String) (error : SystemError)
  deriving Repr, DecidableEq

def ListingError.message : ListingError → String
  | .pattern p fault => fault.wildcardMessage p
  | .loop path => s!"failed to read {path}: filesystem loop"
  | .unreadable path error => s!"failed to read {path}: {error.message}"

namespace FileTree

/-- A walk stops at a path below its start: at a link that leads back up, or at a path that the
system refuses. -/
structure Obstacle where
  names : List String
  error : Option SystemError

/-- What a walk below an entry comes to, as it is seen from the directory that the entry is in. -/
def under (name : String) :
    Except Obstacle (List (List String)) → Except Obstacle (List (List String))
  | .ok files => .ok (files.map (name :: ·))
  | .error o => .error { o with names := name :: o.names }

/-- The regular files that an entry of a directory leads to. The directory lies where `path` leads,
and the system is asked for a directory or a link in it by its own path. `above` are the locations
of the directories walked through, the last of them first, and `walk` lists the files below a
directory. -/
def filesAt (t : FileTree) (walk : String → Location → Except Obstacle (List (List String)))
    (path : String) (above : List Location) (at_ : Location) :
    String × FileNode → Except Obstacle (List (List String))
  | (name, .file _) => .ok [[name]]
  | (name, .dir _) =>
    match t.locate (Path.join path name) with
    | .error e => .error ⟨[name], some e⟩
    | .ok location => under name (walk (Path.join path name) location)
  | (name, .link _) =>
    match t.locate (Path.join path name) with
    | .error e => .error ⟨[name], some e⟩
    | .ok location =>
      match t.root.get? location with
      | some (.dir _) =>
        if (at_ :: above).contains location then .error ⟨[name], none⟩
        else under name (walk (Path.join path name) location)
      | some (.file _) => .ok [[name]]
      | _ => .error ⟨[name], some .notFound⟩

/-- The regular files below a directory, by the names that lead to them. -/
def filesBelow (t : FileTree) : Nat → String → List Location → Location →
    Except Obstacle (List (List String))
  | 0, _, _, _ => .error ⟨[], none⟩
  | fuel + 1, path, above, at_ =>
    match t.root.get? at_ with
    | some (.dir entries) => do
      let walk := fun path' location => filesBelow t fuel path' (at_ :: above) location
      return (← entries.mapM (t.filesAt walk path above at_)).flatten
    | _ => .ok []

end FileTree

/-- The order of paths by their names, one after the other. -/
def leNames : List String → List String → Bool
  | [], _ => true
  | _ :: _, [] => false
  | a :: as, b :: bs => if a = b then leNames as bs else a < b

/-- A path below a directory. -/
def pathBelow (root : String) (names : List String) : String := names.foldl Path.join root

/-- The files below a directory whose own names match a pattern, in order, each as the directory
with the names below it. A directory that is none has no files. -/
def listMatching (t : FileTree) (root pattern : String) : Except ListingError (List String) :=
  match Wildcard.ofText pattern with
  | .error fault => .error (.pattern pattern fault)
  | .ok wildcard =>
    match t.locate root with
    | .error _ => .ok []
    | .ok start =>
      let n := t.root.count
      match t.filesBelow (n * n + n + 1) root [] start with
      | .error ⟨names, none⟩ => .error (.loop (pathBelow root names))
      | .error ⟨names, some e⟩ => .error (.unreadable (pathBelow root names) e)
      | .ok files =>
        let matching := files.filter fun names => (names.getLast?.map wildcard.accepts).getD false
        .ok ((matching.mergeSort leNames).map (pathBelow root))

end CompiledViews
