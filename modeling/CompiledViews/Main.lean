import CompiledViews.CommandLine.Run

/-! The program. It takes the working directory and the variables as they are, runs the command on
them, and prints what it leaves. -/

namespace CompiledViews

/-- The entries of a directory with all below them, to some depth. Links are followed. -/
def readEntries : Nat → Array IO.FS.DirEntry → IO (List (String × FileNode))
  | 0, _ => return []
  | depth + 1, entries => do
    let mut found := []
    for e in entries do
      try
        match (← e.path.metadata).type with
        | .dir =>
          found := (e.fileName, .dir (← readEntries depth (← e.path.readDir))) :: found
        | .file =>
          found := (e.fileName, .file (← IO.FS.readBinFile e.path).toList) :: found
        | _ => pure ()
      catch _ => pure ()
    return found

/-- Puts what a path leads to where the path has it by its text, unless it is there. -/
def readPath (depth : Nat) (t : FileTree) (path : String) : IO FileTree := do
  if t.exists_ path then return t
  try
    let place := (← IO.currentDir) / path
    let node ← if ← place.isDir then pure (.dir (← readEntries depth (← place.readDir)))
      else pure (.file (← IO.FS.readBinFile place).toList)
    return t.set (t.textLocation path) node
  catch _ => return t

/-- The working directory with all below it. -/
def readHome : IO FileTree := do
  let t := FileTree.empty
  readPath 32 { t with home := t.textLocation (← IO.currentDir).toString } "."

/-- The variables, which the system lists with a null character after each. -/
def readEnvironment : IO Environment := do
  let bytes ← IO.FS.readBinFile "/proc/self/environ"
  let lines := Text.splitList (· == '\x00') (Text.Utf8.decodeLossy bytes.toList)
  return ⟨lines.map fun line => (String.ofList (line.takeWhile (· ≠ '=')),
    String.ofList ((line.dropWhile (· ≠ '=')).drop 1))⟩

/-- The working directory, and what the arguments and the configuration name outside of it. -/
def readFiles (env : Environment) (args : List String) : IO FileTree := do
  let t ← readHome
  let .ok i := CommandLine.Invocation.ofArguments env args | return t
  let model := match i.command with
    | .render _ (some arg) => if arg.toList.head? = some '@' then [(arg.drop 1).toString] else []
    | _ => []
  let t ← (i.config.toList ++ model).foldlM (readPath 0) t
  let .ok c := i.loadConfig t (Environment.loadFiles t "." env).1 | return t
  let t ← readPath 32 t c.sources.root
  ((i.logConfig env c).file.bind Path.parent?).toList.foldlM (readPath 0) t

/-- Looks for changes from time to time. -/
partial def watchFiles (e : Engine) (before : FileTree) (read : IO FileTree) : IO Unit := do
  IO.sleep (max 50 e.config.watch.coalesceMs).toUInt32
  let after ← read
  watchFiles (e.notify after (e.changed before after)) after read

end CompiledViews

open CompiledViews in
def main (args : List String) : IO UInt32 := do
  let env ← readEnvironment
  let files ← readFiles env args
  let output := CommandLine.run files env args
  (← IO.getStdout).putStr output.out
  (← IO.getStderr).putStr output.err
  if let some engine := output.watching then watchFiles engine files (readFiles env args)
  return output.status.toUInt32
