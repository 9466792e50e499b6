import CompiledViews.Proofs.Environment.Sequence
import CompiledViews.Proofs.Files.Following

/-! Loading files of variables only adds variables: one that is set keeps its value, and any other
gets the value of its first assignment. -/

namespace CompiledViews.Environment

/-- The lines of the file at a path. A missing file has none, and what is no file but is there
cannot be read. -/
def linesAt (t : FileTree) (path : String) : List Item :=
  match t.find path with
  | .ok (.file bytes) => (fileLines bytes).map (path, ·)
  | .ok _ => [(path, .error (.unreadable SystemError.isDirectory.message))]
  | .error _ => []

/-- What the system gives for the file at a path. -/
def linesRead (t : FileTree) (path : String) : List Item :=
  match t.read path with
  | .ok bytes => (fileLines bytes).map (path, ·)
  | .error .notFound => []
  | .error e => [(path, .error (.unreadable e.message))]

/-- There is something at a path, or the system says that nothing can be found there. -/
def Settled (t : FileTree) (path : String) : Prop :=
  t.exists_ path = true ∨ t.read path = .error .notFound

instance (t : FileTree) (path : String) : Decidable (Settled t path) :=
  inferInstanceAs (Decidable (_ ∨ _))

/-- Of each file of variables that is looked for the system knows whether it is there. -/
structure Known (t : FileTree) (dir : String) (env : Environment) : Prop where
  always : ∀ name ∈ [".env", ".env.local"], Settled t (Path.join dir name)
  stage : ∀ as stage, Reads env [] (common (linesAt t) dir) as none →
    valueAfter env as stageName = some stage → Settled t (Path.join dir (".env." ++ stage))

variable {env env' : Environment} {before as given : List Assignment} {stop : Option LoadError}
  {t : FileTree} {dir path : String}

/-- What has come of an environment after some assignments, of which those of one file gave what is
given. -/
structure Holds (env : Environment) (before : List Assignment) (env' : Environment)
    (given : List Assignment) : Prop where
  get? : ∀ name, env'.get? name = valueAfter env before name
  given : ∀ a ∈ given, (env'.get? a.1).isSome = true

namespace Holds

/-- What a file gave is looked up in vain: a variable that it assigns to is set. -/
lemma lookup (h : Holds env before env' given) :
    (fun name => (env'.get? name).getD (((given.find? (·.1 = name)).map (·.2)).getD "")) =
      lookupAfter env before := by
  funext name
  rw [lookupAfter, ← h.get?]
  cases hget : env'.get? name with
  | some value => rfl
  | none =>
    have hnone : given.find? (·.1 = name) = none := by
      rw [List.find?_eq_none]
      intro a ha hname
      have hset := h.given a ha
      rw [of_decide_eq_true hname, hget] at hset
      cases hset
    rw [hnone]
    rfl

lemma setDefault (h : Holds env before env' given) (a : Assignment) :
    Holds env (before ++ [a]) (env'.setDefault a.1 a.2) (a :: given) where
  get? := fun name => by
    rw [get?_setDefault, h.get?, valueAfter_append]
    by_cases hname : a.1 = name <;> simp [firstValue?, hname]
  given := List.forall_mem_cons.mpr ⟨by simp [get?_setDefault], fun b hb => by
    rw [get?_setDefault, Option.isSome_or, h.given b hb, Bool.true_or]⟩

end Holds

theorem applyLines_reads (file : String) (h : Holds env before env' given)
    (ls : List (Except Fault (List Char))) :
    ∃ as, Reads env before (ls.map (file, ·)) as ((applyLines env' given ls).2.map (⟨file, ·⟩)) ∧
      ∀ name, (applyLines env' given ls).1.get? name = valueAfter env (before ++ as) name := by
  -- what is assigned moves from the lines to come to the assignments before, line by line
  induction ls generalizing env' given before with
  | nil => exact ⟨[], .done _, by simpa [applyLines] using h.get?⟩
  | cons l ls ih =>
    cases l with
    | error fault => exact ⟨[], .broken _ _ _ _, by simpa [applyLines] using h.get?⟩
    | ok line =>
      rw [applyLines]
      simp only [h.lookup]
      cases hread : readAssignment (lookupAfter env before) line with
      | error text => exact ⟨[], .malformed file hread _, by simpa using h.get?⟩
      | ok made =>
        cases made with
        | none =>
          obtain ⟨as, hreads, hget⟩ := ih h
          exact ⟨as, .line file hread (by simpa using hreads), hget⟩
        | some a =>
          obtain ⟨as, hreads, hget⟩ := ih (h.setDefault a)
          exact ⟨a :: as, .line file hread hreads, by simpa using hget⟩

/-- Loading a file reads the lines that the system gives for it. -/
theorem loadFile_reads (t : FileTree) (path : String)
    (h : ∀ name, env'.get? name = valueAfter env before name) :
    ∃ as, Reads env before (linesRead t path) as (loadFile t env' path).2 ∧
      ∀ name, (loadFile t env' path).1.get? name = valueAfter env (before ++ as) name := by
  rw [linesRead, loadFile]
  cases hread : t.read path with
  | ok bytes => exact applyLines_reads path ⟨h, by simp⟩ (fileLines bytes)
  | error e =>
    cases e with
    | notFound => exact ⟨[], .done _, by simpa using h⟩
    | _ => exact ⟨[], .broken _ _ _ _, by simpa using h⟩

/-- Loading the files of variables makes the assignments of their sequence to what is not set. -/
theorem loadFiles_sequence (t : FileTree) (dir : String) (env : Environment) :
    ∃ as, Sequence (linesRead t) dir env as (loadFiles t dir env).2 ∧
      ∀ name, (loadFiles t dir env).1.get? name = valueAfter env as name := by
  obtain ⟨as, hplain, hget⟩ := loadFile_reads t (Path.join dir ".env") (valueAfter_nil env)
  rw [loadFiles]
  generalize loadFile t env (Path.join dir ".env") = plain at hplain hget ⊢
  obtain ⟨env', _ | e⟩ := plain
  case some => exact ⟨as, .stopped (hplain.append_of_some _), hget⟩
  dsimp only at hget ⊢
  obtain ⟨bs, hlocal, hget'⟩ := loadFile_reads t (Path.join dir ".env.local") hget
  generalize loadFile t env' (Path.join dir ".env.local") = local_ at hlocal hget' ⊢
  obtain ⟨env', _ | e⟩ := local_
  case some => exact ⟨as ++ bs, .stopped (hplain.append hlocal), hget'⟩
  dsimp only at hget' ⊢
  have hcommon : Reads env [] (common (linesRead t) dir) (as ++ bs) none := hplain.append hlocal
  -- the stage is looked up in what these two files have come to
  rw [hget', List.nil_append]
  cases hstage : valueAfter env (as ++ bs) stageName with
  | none =>
    refine ⟨as ++ bs, .staged hcommon ?_, hget'⟩
    rw [hstage, ofStage, List.append_nil]
    exact hcommon
  | some stage =>
    obtain ⟨cs, hlast, hget''⟩ := loadFile_reads t (Path.join dir (".env." ++ stage)) hget'
    refine ⟨as ++ bs ++ cs, .staged hcommon ?_, hget''⟩
    rw [hstage]
    exact hcommon.append hlast

/-- Where the system knows whether there is a file, it gives the lines of the file that is there. -/
lemma linesRead_eq_linesAt (h : Settled t path) : linesRead t path = linesAt t path := by
  rw [Settled, FileTree.exists_] at h
  rw [linesRead, linesAt]
  rw [FileTree.read] at h ⊢
  cases hfind : t.find path with
  | ok found => cases found <;> rfl
  | error e =>
    rw [hfind] at h
    rcases h with hexists | hread
    · cases hexists
    · obtain rfl := Except.error.inj hread
      rfl

lemma Sequence.of_known (h : Sequence (linesRead t) dir env as stop) (hknown : Known t dir env) :
    Sequence (linesAt t) dir env as stop := by
  refine h.congr ?_ fun first hfirst => ?_
  · rw [common, common, linesRead_eq_linesAt (hknown.always _ (by simp)),
      linesRead_eq_linesAt (hknown.always _ (by simp))]
  · cases hvalue : valueAfter env first stageName with
    | none => rfl
    | some stage => exact linesRead_eq_linesAt (hknown.stage first stage hfirst hvalue)

/-- Loading files of variables only adds variables. One that was set stays as it was. Where it is
known of each file whether it is there, any other has the value of its first assignment in the
sequence of the files, and loading fails just where the sequence stops at a line that is refused,
with the file of that line. -/
theorem loadFiles_only_adds (t : FileTree) (dir : String) (env : Environment) :
    (∀ name value, env.get? name = some value →
      (loadFiles t dir env).1.get? name = some value) ∧
    (Known t dir env → (∃ as stop, Sequence (linesAt t) dir env as stop) ∧
      ∀ as stop, Sequence (linesAt t) dir env as stop →
        (∀ name, env.get? name = none →
          (loadFiles t dir env).1.get? name = firstValue? as name) ∧
        (loadFiles t dir env).2 = stop) := by
  obtain ⟨as, hread, hget⟩ := loadFiles_sequence t dir env
  refine ⟨fun name value hset => ?_, fun hknown => ?_⟩
  · rw [hget, valueAfter, hset, Option.some_or]
  · have hsequence := hread.of_known hknown
    refine ⟨⟨as, _, hsequence⟩, fun bs stop hother => ?_⟩
    obtain ⟨rfl, hstop⟩ := hsequence.unique hother
    refine ⟨fun name hunset => ?_, hstop⟩
    rw [hget, valueAfter, hunset, Option.none_or]

lemma linesAt_of_file {bytes : List UInt8} (h : t.find path = .ok (.file bytes)) :
    linesAt t path = (fileLines bytes).map (path, ·) := by rw [linesAt, h]

lemma linesAt_of_missing {e : SystemError} (h : t.find path = .error e) : linesAt t path = [] := by
  rw [linesAt, h]

lemma settled_of_ok {e : FileNode} (h : t.find path = .ok e) : Settled t path :=
  .inl (by rw [FileTree.exists_, h])

lemma settled_of_notFound (h : t.find path = .error .notFound) : Settled t path :=
  .inr (by rw [FileTree.read, h]; rfl)

namespace Staged

/-- A file that names a stage, and one for this stage, in which a line is refused. -/
def files : FileTree where
  root := .dir [(".env", .file "A=1\nSTENCIL_ENV=dev\n".toUTF8.toList),
    (".env.dev", .file "A=2\nB=$A\nC=3\nx\nD=4".toUTF8.toList)]
  home := []

def start : Environment := ⟨[("C", "0")]⟩

lemma find_env : files.find (Path.join "." ".env") =
    .ok (.file "A=1\nSTENCIL_ENV=dev\n".toUTF8.toList) :=
  FileTree.find_here_of_child (by decide +kernel) (by decide +kernel) (by decide +kernel) rfl rfl
    (by simp)

lemma find_env_local : files.find (Path.join "." ".env.local") = .error .notFound :=
  FileTree.find_here_of_no_child (by decide +kernel) (by decide +kernel) (by decide +kernel) rfl rfl

lemma find_env_dev : files.find (Path.join "." ".env.dev") =
    .ok (.file "A=2\nB=$A\nC=3\nx\nD=4".toUTF8.toList) :=
  FileTree.find_here_of_child (by decide +kernel) (by decide +kernel) (by decide +kernel) rfl rfl
    (by simp)

lemma dev_eq : ".env." ++ "dev" = ".env.dev" := by decide

lemma reads_common : Reads start [] (common (linesAt files) ".")
    [("A", "1"), ("STENCIL_ENV", "dev")] none := by
  have hlines : fileLines "A=1\nSTENCIL_ENV=dev\n".toUTF8.toList =
      [.ok "A=1".toList, .ok "STENCIL_ENV=dev".toList] := by decide +kernel
  rw [common, linesAt_of_file find_env, linesAt_of_missing find_env_local, hlines]
  refine .line _ (show readAssignment _ _ = .ok (some ("A", "1")) by decide +kernel) ?_
  refine .line _ (show readAssignment _ _ = .ok (some ("STENCIL_ENV", "dev")) by decide +kernel) ?_
  exact .done _

lemma stage_eq :
    valueAfter start [("A", "1"), ("STENCIL_ENV", "dev")] stageName = some "dev" := by decide

lemma sequence : Sequence (linesAt files) "." start
    [("A", "1"), ("STENCIL_ENV", "dev"), ("A", "2"), ("B", "1"), ("C", "3")]
    (some ⟨"./.env.dev", .line "x"⟩) := by
  have hpath : Path.join "." ".env.dev" = "./.env.dev" := by decide +kernel
  have hlines : fileLines "A=2\nB=$A\nC=3\nx\nD=4".toUTF8.toList =
      [.ok "A=2".toList, .ok "B=$A".toList, .ok "C=3".toList, .ok ['x'], .ok "D=4".toList] := by
    decide +kernel
  refine .staged reads_common (reads_common.append ?_)
  rw [stage_eq, ofStage, dev_eq, linesAt_of_file find_env_dev, hlines, hpath]
  refine .line _ (show readAssignment _ _ = .ok (some ("A", "2")) by decide +kernel) ?_
  refine .line _ (show readAssignment _ _ = .ok (some ("B", "1")) by decide +kernel) ?_
  refine .line _ (show readAssignment _ _ = .ok (some ("C", "3")) by decide +kernel) ?_
  exact .malformed _ (show readAssignment _ _ = .error ['x'] by decide +kernel) _

lemma known : Known files "." start := by
  refine ⟨?_, fun as stage hreads hstage => ?_⟩
  · rw [List.forall_mem_cons, List.forall_mem_singleton]
    exact ⟨settled_of_ok find_env, settled_of_notFound find_env_local⟩
  · obtain ⟨rfl, -⟩ := hreads.unique reads_common
    obtain rfl : stage = "dev" := Option.some.inj (hstage.symm.trans stage_eq)
    exact dev_eq ▸ settled_of_ok find_env_dev

end Staged

open Staged in
theorem loadFiles_only_adds_staged :
    Known files "." start ∧
      Sequence (linesAt files) "." start
        [("A", "1"), ("STENCIL_ENV", "dev"), ("A", "2"), ("B", "1"), ("C", "3")]
        (some ⟨"./.env.dev", .line "x"⟩) ∧
      (loadFiles files "." start).1.get? "A" = some "1" ∧
      (loadFiles files "." start).1.get? "B" = some "1" ∧
      (loadFiles files "." start).1.get? "C" = some "0" ∧
      (loadFiles files "." start).1.get? "D" = none ∧
      (loadFiles files "." start).2 = some ⟨"./.env.dev", .line "x"⟩ := by
  obtain ⟨hkept, hadds⟩ := loadFiles_only_adds files "." start
  obtain ⟨hadded, hstop⟩ := (hadds known).2 _ _ sequence
  exact ⟨known, sequence, hadded "A" rfl, hadded "B" rfl, hkept "C" "0" rfl, hadded "D" rfl, hstop⟩

namespace Staged

/-- A file that is no directory, and a stage whose file would be below it. -/
def fileBelow : FileTree := ⟨.dir [(".env.x", .file [])], []⟩

def startBelow : Environment := ⟨[("STENCIL_ENV", "x/y")]⟩

lemma find_fileBelow : fileBelow.find "./.env.x/y" = .error .notDirectory := by
  have hfits : FileTree.refusal? "./.env.x/y" = none := by decide +kernel
  have hsteps : Path.steps "./.env.x/y" = [.here, .name ".env.x", .name "y"] := by decide +kernel
  have hshort : Text.Utf8.size ".env.x" ≤ FileNode.maxNameBytes := by decide +kernel
  have hlocate : fileBelow.locate "./.env.x/y" = .error .notDirectory := by
    rw [FileTree.locate, hfits, hsteps]
    simp [fileBelow, FileTree.follow, FileNode.follow, FileNode.get?, FileNode.child?,
      Nat.not_lt.mpr hshort]
  rw [FileTree.find, hlocate]
  rfl

end Staged

open Staged in
/-- A file below one that is no directory is missing, and yet loading fails at it. -/
theorem loadFiles_missing_file :
    fileBelow.exists_ "./.env.x/y" = false ∧ Sequence (linesAt fileBelow) "." startBelow [] none ∧
      (loadFiles fileBelow "." startBelow).2 =
        some ⟨"./.env.x/y", .unreadable "Not a directory (os error 20)"⟩ := by
  have hpath : Path.join "." (".env." ++ "x/y") = "./.env.x/y" := by decide +kernel
  have hplain : fileBelow.find (Path.join "." ".env") = .error .notFound :=
    FileTree.find_here_of_no_child (by decide +kernel) (by decide +kernel) (by decide +kernel)
      rfl rfl
  have hlocal : fileBelow.find (Path.join "." ".env.local") = .error .notFound :=
    FileTree.find_here_of_no_child (by decide +kernel) (by decide +kernel) (by decide +kernel)
      rfl rfl
  have hcommon : common (linesAt fileBelow) "." = [] := by
    rw [common, linesAt_of_missing hplain, linesAt_of_missing hlocal, List.append_nil]
  have hnothing : Reads startBelow [] (common (linesAt fileBelow) ".") [] none :=
    hcommon ▸ Reads.done []
  have hvalue : valueAfter startBelow [] stageName = some "x/y" := by decide
  refine ⟨by rw [FileTree.exists_, find_fileBelow], .staged hnothing ?_, ?_⟩
  · rw [hcommon, hvalue, ofStage, hpath, linesAt_of_missing find_fileBelow]
    exact .done []
  · have hskipped : ∀ path, fileBelow.find path = .error .notFound →
        loadFile fileBelow startBelow path = (startBelow, none) :=
      fun path hfind => by rw [loadFile, FileTree.read, hfind]; rfl
    have hget : startBelow.get? stageName = some "x/y" := by decide
    rw [loadFiles, hskipped _ hplain]
    simp only [hskipped _ hlocal, hget, hpath]
    rw [loadFile, FileTree.read, find_fileBelow]
    rfl

end CompiledViews.Environment
