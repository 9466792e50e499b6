import CompiledViews.Environment.File
import Mathlib.Tactic.Common

/-! What the files of variables assign. Their lines are read one after the other, up to the first
that is refused; what a line assigns may depend on the variables that are set by then, and so does
which file comes last. -/

namespace CompiledViews.Environment

abbrev Assignment := String × String

/-- A line of the file at a path, or why there is none. -/
abbrev Item := String × Except Fault (List Char)

/-- The first value that is assigned to a variable. -/
def firstValue? (as : List Assignment) (name : String) : Option String :=
  (as.find? (·.1 = name)).map (·.2)

/-- The value of a variable after some assignments: the one it had, or the first it is given. -/
def valueAfter (env : Environment) (as : List Assignment) (name : String) : Option String :=
  (env.get? name).or (firstValue? as name)

/-- What a dollar sign puts in after some assignments. -/
def lookupAfter (env : Environment) (as : List Assignment) (name : String) : String :=
  (valueAfter env as name).getD ""

/-- The assignments that lines make after those before them, and what is wrong with the first line
that is refused. Nothing after it is read. -/
inductive Reads (env : Environment) :
    List Assignment → List Item → List Assignment → Option LoadError → Prop
  | done (before : List Assignment) : Reads env before [] [] none
  | broken (before : List Assignment) (file : String) (fault : Fault) (items : List Item) :
    Reads env before ((file, .error fault) :: items) [] (some ⟨file, fault⟩)
  | malformed {before : List Assignment} {line text : List Char} (file : String)
      (h : readAssignment (lookupAfter env before) line = .error text) (items : List Item) :
    Reads env before ((file, .ok line) :: items) [] (some ⟨file, .line (String.ofList text)⟩)
  | line {before as : List Assignment} {line : List Char} {made : Option Assignment}
      {items : List Item} {stop : Option LoadError} (file : String)
      (h : readAssignment (lookupAfter env before) line = .ok made)
      (hrest : Reads env (before ++ made.toList) items as stop) :
    Reads env before ((file, .ok line) :: items) (made.toList ++ as) stop

/-- The lines of the files that are always looked for. -/
def common (lines : String → List Item) (dir : String) : List Item :=
  lines (Path.join dir ".env") ++ lines (Path.join dir ".env.local")

/-- The lines of the file for a stage; none if there is no stage. -/
def ofStage (lines : String → List Item) (dir : String) : Option String → List Item
  | some stage => lines (Path.join dir (".env." ++ stage))
  | none => []

/-- The assignments of the files of variables in a directory, up to the first line that is refused:
those of the files that are always looked for, and then those of the file for the stage that is set
after these. -/
inductive Sequence (lines : String → List Item) (dir : String) (env : Environment) :
    List Assignment → Option LoadError → Prop
  | stopped {as : List Assignment} {e : LoadError}
      (h : Reads env [] (common lines dir) as (some e)) : Sequence lines dir env as (some e)
  | staged {first as : List Assignment} {stop : Option LoadError}
      (h : Reads env [] (common lines dir) first none)
      (hall : Reads env []
        (common lines dir ++ ofStage lines dir (valueAfter env first stageName)) as stop) :
    Sequence lines dir env as stop

variable {env : Environment} {before as bs : List Assignment} {items xs ys : List Item}
  {stop stop' : Option LoadError} {lines lines' : String → List Item} {dir : String}

lemma firstValue?_append (as bs : List Assignment) (name : String) :
    firstValue? (as ++ bs) name = (firstValue? as name).or (firstValue? bs name) := by
  rw [firstValue?, List.find?_append, Option.map_or]
  rfl

lemma valueAfter_append (env : Environment) (as bs : List Assignment) (name : String) :
    valueAfter env (as ++ bs) name = (valueAfter env as name).or (firstValue? bs name) := by
  rw [valueAfter, firstValue?_append, ← Option.or_assoc]
  rfl

lemma valueAfter_nil (env : Environment) (name : String) :
    env.get? name = valueAfter env [] name := by simp [valueAfter, firstValue?]

theorem Reads.unique (h : Reads env before items as stop) (h' : Reads env before items bs stop') :
    as = bs ∧ stop = stop' := by
  induction h generalizing bs with
  | done => cases h'; exact ⟨rfl, rfl⟩
  | broken => cases h'; exact ⟨rfl, rfl⟩
  | malformed file h items =>
    cases h' with
    | malformed _ h' =>
      obtain rfl := Except.error.inj (h.symm.trans h')
      exact ⟨rfl, rfl⟩
    | line _ h' => cases h.symm.trans h'
  | line file h _ ih =>
    cases h' with
    | malformed _ h' => cases h.symm.trans h'
    | line _ h' hrest' =>
      obtain rfl := Except.ok.inj (h.symm.trans h')
      obtain ⟨rfl, rfl⟩ := ih hrest'
      exact ⟨rfl, rfl⟩

/-- Lines none of which is refused are read on with what follows them. -/
theorem Reads.append (hx : Reads env before xs as none)
    (hy : Reads env (before ++ as) ys bs stop) : Reads env before (xs ++ ys) (as ++ bs) stop := by
  generalize hnone : (none : Option LoadError) = none' at hx
  induction hx with
  | done => simpa using hy
  | broken => cases hnone
  | malformed => cases hnone
  | line file h _ ih =>
    rw [List.append_assoc]
    exact .line file h (ih (by simpa using hy) hnone)

/-- What follows a line that is refused is not read. -/
theorem Reads.append_of_some {e : LoadError} (hx : Reads env before xs as (some e))
    (ys : List Item) : Reads env before (xs ++ ys) as (some e) := by
  generalize hsome : some e = some' at hx
  induction hx with
  | done => cases hsome
  | broken => cases hsome; exact .broken _ _ _ _
  | malformed file h => cases hsome; exact .malformed file h _
  | line file h _ ih => exact .line file h (ih hsome)

theorem Sequence.unique (h : Sequence lines dir env as stop)
    (h' : Sequence lines dir env bs stop') : as = bs ∧ stop = stop' := by
  cases h with
  | stopped h =>
    cases h' with
    | stopped h' => exact h.unique h'
    | staged h' => cases (h.unique h').2
  | staged h hall =>
    cases h' with
    | stopped h' => cases (h.unique h').2
    | staged h' hall' =>
      obtain ⟨rfl, -⟩ := h.unique h'
      exact hall.unique hall'

/-- Only the lines of the files that are looked for matter. -/
theorem Sequence.congr (h : Sequence lines dir env as stop)
    (hcommon : common lines dir = common lines' dir)
    (hstage : ∀ first, Reads env [] (common lines' dir) first none →
      ofStage lines dir (valueAfter env first stageName) =
        ofStage lines' dir (valueAfter env first stageName)) :
    Sequence lines' dir env as stop := by
  cases h with
  | stopped h => exact .stopped (hcommon ▸ h)
  | staged h hall =>
    rw [hcommon] at h hall
    rw [hstage _ h] at hall
    exact .staged h hall

end CompiledViews.Environment
