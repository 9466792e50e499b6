import CompiledViews.Proofs.Cache.Snapshots

/-!
The names of modules. A module is given a name that is made up for it, and whatever comes of it
comes of it under any other such name: the name is only told, as it was asked for and as it stands
in the code. The options could declare another name, for they may go on over several lines.
-/

namespace CompiledViews

open Text

namespace Code

/-- Only a line that begins with the word for it declares a module. -/
lemma of_readEntry_eq_module {line : List Char} {name : String}
    (h : readEntry line = .ok (.module name)) :
    "#module".toList <+: line ∧ name.toList <:+: line := by
  unfold readEntry at h
  cases hread : keyAndValue? line with
  | none => simp [hread] at h
  | some entry =>
    obtain ⟨key, value⟩ := entry
    simp only [hread] at h
    have hmodule : key = "module".toList ∧ String.ofList value = name := by
      by_cases hkey : key = "module".toList
      · simpa [hkey] using h
      · rw [if_neg hkey] at h
        repeat' split at h
        all_goals cases h
    obtain ⟨rfl, rfl⟩ := hmodule
    unfold keyAndValue? at hread
    split at hread
    case h_1 cs =>
      obtain ⟨-, hkey, rfl⟩ : _ ∧ cs.takeWhile (· ≠ ' ') = _ ∧ trimList _ = value := by
        simpa using hread
      have hcs := List.takeWhile_append_dropWhile (p := (· ≠ ' ')) (l := cs)
      rw [hkey] at hcs
      refine ⟨⟨_, congrArg ('#' :: ·) hcs⟩, ?_⟩
      rw [String.toList_ofList]
      refine (infix_trimList _).trans ((List.tail_suffix _).trans ?_).isInfix
      exact (List.dropWhile_suffix _).trans (List.suffix_cons '#' cs)
    case h_2 => cases hread

/-- A line below the first can only declare a module if its value goes on over several lines. -/
lemma infix_value_of_mem_linesList {e : Entry} {line : List Char} {name : String}
    (hname : Inline name) (he : ∀ declared, e ≠ .module declared)
    (hline : line ∈ linesList (e.line.toList ++ ['\n']))
    (hread : readEntry (stripLineEnd line) = .ok (.module name)) :
    '\n' ∈ e.value.toList ∧ name.toList <:+: e.value.toList := by
  obtain ⟨hbegins, hinside⟩ := of_readEntry_eq_module hread
  have hcut : e.line.toList ++ ['\n'] =
      ('#' :: (e.keyword.toList ++ [' '])) ++ (e.value.toList ++ ['\n']) := by
    simp [Entry.toList_line]
  have hfront : '\n' ∉ '#' :: (e.keyword.toList ++ [' ']) := by
    cases e <;> simp [Entry.keyword]
  rw [hcut, linesList_append (by simp) hfront, List.mem_cons] at hline
  rcases hline with rfl | hline
  · -- the first of the lines begins with another word
    have hword := hbegins.trans (stripLineEnd_isPrefix _)
    cases e with
    | module declared => exact absurd rfl (he declared)
    | ns | inherits | import_ | origin => simp [Entry.keyword] at hword
  · have hseveral : '\n' ∈ e.value.toList := by
      by_contra hone
      rw [linesList_cons_line hone] at hline
      simp [linesList] at hline
    have hvalue := hinside.trans ((stripLineEnd_isPrefix line).isInfix.trans
      (infix_of_mem_linesList (List.mem_of_mem_tail hline)))
    rcases infix_cases hname.oneLine hvalue with hin | hnil
    · exact ⟨hseveral, hin⟩
    · exact absurd (List.infix_nil.mp hnil) hname.ne_nil

end Code

/-- At most the name that was asked for differs. -/
inductive Diagnostic.Alike (name other : String) : Diagnostic → Diagnostic → Prop
  | same (d : Diagnostic) : Alike name other d d
  | otherModule (declared : String) (line : ℕ) : Alike name other
      (.errorAtLine Diagnostic.otherModule
        s!"code declares module '{declared}' but '{name}' was requested" line)
      (.errorAtLine Diagnostic.otherModule
        s!"code declares module '{declared}' but '{other}' was requested" line)

namespace Code

variable {name name' : String} {rest : List Char}

/-- The lines of a header that stand in a text. -/
def headerBelow (rest : List Char) : List (List Char) :=
  (linesList rest).takeWhile (!isSeparator ·)

/-- What the lines of a header below the first say. -/
def entriesBelow (rest : List Char) : List (ℕ × Except String Entry) :=
  (((headerBelow rest).map fun line => readEntry (stripLineEnd line)).zipIdx 2).map
    fun (entry, i) => (i, entry)

lemma last?_cons (i : ℕ) (e : Entry) (es : List (ℕ × Except String Entry)) {α : Type}
    (f : Entry → Option α) :
    last? ((i, .ok e) :: es) f = (last? es f).or ((f e).map (i, ·)) := by
  rw [← List.singleton_append, Manifest.last?_append]
  simp [last?]

/-- What is declared last is declared by some line. -/
lemma exists_of_last?_eq_some {i : ℕ} {declared : String}
    (h : last? (entriesBelow rest) (fun
      | .module name => some name
      | _ => none) = some (i, declared)) :
    ∃ line ∈ headerBelow rest, readEntry (stripLineEnd line) = .ok (.module declared) := by
  obtain ⟨entry, hentry, hpick⟩ := List.exists_of_findSome?_eq_some h
  obtain ⟨⟨read, j⟩, hmem, rfl⟩ := List.mem_map.mp (List.mem_reverse.mp hentry)
  obtain ⟨line, hline, rfl⟩ := List.mem_map.mp (List.fst_mem_of_mem_zipIdx hmem)
  refine ⟨line, hline, ?_⟩
  cases hread : readEntry (stripLineEnd line) with
  | error e => simp [hread] at hpick
  | ok e => cases e <;> simp_all

@[simp] lemma badEntries_cons (i : ℕ) (e : Entry) (es : List (ℕ × Except String Entry)) :
    badEntries ((i, .ok e) :: es) = badEntries es := rfl

@[simp] lemma imports_cons (i : ℕ) (declared : String) (es : List (ℕ × Except String Entry)) :
    imports ((i, .ok (.module declared)) :: es) = imports es := rfl

lemma checkModule_alike {declared : Option (ℕ × String)}
    (h : ∀ line other, declared = some (line, other) → other ≠ name ∧ other ≠ name') :
    List.Forall₂ (Diagnostic.Alike name name')
      (checkModule name (declared.or (some (1, name))))
      (checkModule name' (declared.or (some (1, name')))) := by
  cases declared with
  | none => simp [checkModule]
  | some entry =>
    obtain ⟨line, other⟩ := entry
    obtain ⟨hname, hname'⟩ := h line other rfl
    simpa [checkModule, hname, hname'] using Diagnostic.Alike.otherModule other line

lemma alike_refl (ds : List Diagnostic) : List.Forall₂ (Diagnostic.Alike name name') ds ds :=
  List.forall₂_same.mpr fun d _ => .same d

/-- A manifest counts if nothing is wrong with it. -/
def unlessFaulty (m : Manifest) : List Diagnostic → Except (List Diagnostic) Manifest
  | [] => .ok m
  | ds => .error ds

lemma unlessFaulty_alike (m : Manifest) {ds ds' : List Diagnostic}
    (h : List.Forall₂ (Diagnostic.Alike name name') ds ds') :
    Except.Alike (List.Forall₂ (Diagnostic.Alike name name'))
      (fun m m' : Manifest => m' = { m with module := name' })
      (unlessFaulty { m with module := name } ds)
      (unlessFaulty { m with module := name' } ds') := by
  cases h with
  | nil => exact .ok rfl
  | cons hd hds => exact .error (.cons hd hds)

/-- Code is read alike under two names that stand on its first line and are not declared again. -/
theorem read_alike (references : List String) (hname : Inline name) (hname' : Inline name')
    (hno : ∀ line ∈ headerBelow rest, readEntry (stripLineEnd line) ≠ .ok (.module name) ∧
      readEntry (stripLineEnd line) ≠ .ok (.module name')) :
    Except.Alike (List.Forall₂ (Diagnostic.Alike name name'))
      (fun m m' : Manifest => m' = { m with module := name' })
      (Code.read references name
        (String.ofList ((Entry.module name).line.toList ++ '\n' :: rest)))
      (Code.read references name'
        (String.ofList ((Entry.module name').line.toList ++ '\n' :: rest))) := by
  have hlines : ∀ {name}, Inline name →
      linesList ((Entry.module name).line.toList ++ '\n' :: rest) =
        ((Entry.module name).line.toList ++ ['\n']) :: linesList rest :=
    fun h => linesList_cons_line (Entry.inline_line (e := .module _) h).oneLine rest
  have hheader : ∀ {name}, Inline name →
      (((Entry.module name).line.toList ++ ['\n']) :: linesList rest).takeWhile
        (!isSeparator ·) = ((Entry.module name).line.toList ++ ['\n']) :: headerBelow rest := by
    intro name h
    rw [List.takeWhile_cons_of_pos (by simp [isSeparator_line (e := .module name) h])]
    rfl
  have hentries : ∀ {name}, Inline name →
      readEntries ((((Entry.module name).line.toList ++ ['\n']) :: headerBelow rest).map
        stripLineEnd) = (1, .ok (.module name)) :: entriesBelow rest := by
    intro name h
    rw [readEntries_eq, List.map_cons, List.map_cons,
      stripLineEnd_newline (Entry.inline_line (e := .module name) h).trimmed,
      readEntry_line (e := .module name) h, List.map_map]
    rfl
  have hother : ∀ i other, last? (entriesBelow rest) (fun
      | .module name => some name
      | _ => none) = some (i, other) → other ≠ name ∧ other ≠ name' := by
    intro i other hlast
    obtain ⟨line, hline, hread⟩ := exists_of_last?_eq_some hlast
    exact ⟨fun he => (hno line hline).1 (he ▸ hread), fun he => (hno line hline).2 (he ▸ hread)⟩
  have hdeclared := checkModule_alike hother
  unfold Code.read
  simp only [String.toList_ofList, hlines hname, hlines hname', hheader hname, hheader hname',
    hentries hname, hentries hname', last?_cons, badEntries_cons, imports_cons, List.length_cons,
    List.drop_succ_cons, Option.map_some, Option.map_none]
  split
  · exact .error (alike_refl _)
  · exact unlessFaulty_alike ⟨name, _, _, _, _, _⟩
      (List.rel_append (List.rel_append (List.rel_append (alike_refl _) hdeclared) (alike_refl _))
        (alike_refl _))

end Code

open Code

namespace Manifest

/-- The code of a manifest below its first line. -/
def below (m : Manifest) : List Char :=
  ((m.entries.tail.map fun e => e.line.toList) ++ ["---".toList]).flatMap (· ++ ['\n']) ++
    m.body.toList

lemma toList_code_eq (m : Manifest) :
    m.code.toList = (Entry.module m.module).line.toList ++ '\n' :: m.below := by
  simp [toList_code, below, entries]

/-- Lines of a header come from its entries. -/
lemma exists_of_mem_headerBelow {m : Manifest} {line : List Char}
    (h : line ∈ headerBelow m.below) :
    ∃ e ∈ m.entries.tail, line ∈ linesList (e.line.toList ++ ['\n']) := by
  have hlines : ∀ es : List Entry, linesList
      (((es.map fun e => e.line.toList) ++ ["---".toList]).flatMap (· ++ ['\n']) ++
        m.body.toList) =
      (es.flatMap fun e => linesList (e.line.toList ++ ['\n'])) ++
        ("---".toList ++ ['\n']) :: linesList m.body.toList := by
    intro es
    induction es with
    | nil =>
      have hdashes : '\n' ∉ "---".toList := by simp
      simpa using linesList_cons_line hdashes m.body.toList
    | cons e es ih =>
      rw [List.map_cons, List.cons_append, List.flatMap_cons, List.flatMap_cons, List.append_assoc,
        List.append_assoc, List.append_assoc, ← ih]
      exact linesList_append_newline _ _
  rw [headerBelow, below, hlines] at h
  have hmem : line ∈ m.entries.tail.flatMap fun e => linesList (e.line.toList ++ ['\n']) := by
    -- the line of dashes ends the header
    rw [List.takeWhile_append, List.takeWhile_cons_of_neg (by decide), List.append_nil] at h
    split at h
    · exact h
    · exact (List.takeWhile_sublist _).subset h
  simpa using hmem

end Manifest

/-- A name that the options do not declare: it can stand on a line, and if an option has several
lines it stands on none of them. -/
structure Generation.Lacks (g : Generation) (name : String) : Prop where
  inline : Inline name
  ns : '\n' ∈ g.ns.toList → ¬ name.toList <:+: g.ns.toList
  baseType : '\n' ∈ g.baseType.toList → ¬ name.toList <:+: g.baseType.toList

section Translated

variable {g : Generation} {name name' : String} {c : Content} {references : List String}

/-- The code of a template does not declare a name again that the options do not declare. -/
lemma readEntry_ne_module {text : List Char} {markup : Markup} {origin : Origin}
    (hmarkup : Markup.ofText text = .ok markup) (h : g.Lacks name') :
    ∀ line ∈ headerBelow (markup.manifest g name origin).below,
      readEntry (stripLineEnd line) ≠ .ok (.module name') := by
  intro line hline hread
  obtain ⟨e, he, hline⟩ := Manifest.exists_of_mem_headerBelow hline
  obtain ⟨hinherits, himports, -⟩ := Markup.inline_of_ofText hmarkup
  have hno : ∀ declared, e ≠ .module declared := by
    rintro declared rfl
    simp [Manifest.entries, Markup.manifest] at he
  obtain ⟨hseveral, hinside⟩ := infix_value_of_mem_linesList h.inline hno hline hread
  rcases (by simpa [Manifest.entries, Markup.manifest] using he) with
    rfl | rfl | ⟨ns, hns, rfl⟩ | rfl
  · exact h.ns hseveral hinside
  · simp only [Entry.value] at hseveral hinside
    cases htype : markup.inherits with
    | none =>
      rw [htype] at hseveral hinside
      exact h.baseType hseveral hinside
    | some type =>
      rw [htype] at hseveral
      exact (hinherits type htype).oneLine hseveral
  · exact (himports ns hns).oneLine hseveral
  · exact (Manifest.inline_word origin).oneLine hseveral

/-- Only the manifest tells the name of a module that is translated. -/
lemma translate_eq_map (g : Generation) (name name' : String) (c : Content) :
    translate g name' c = (translate g name c).map fun m => { m with module := name' } := by
  cases hdecoded : c.decoded with
  | error d => simp [translate, hdecoded, Except.mapError, Except.map, bind, Except.bind]
  | ok text =>
    cases hmarkup : Markup.ofText text.toList with
    | error ds =>
      simp [translate, hdecoded, hmarkup, Except.mapError, Except.map, bind, Except.bind]
    | ok markup =>
      rw [translate_of_ofText hdecoded hmarkup, translate_of_ofText hdecoded hmarkup]
      cases readBody markup.offset (String.ofList markup.body) <;> rfl

/-- At most the names of the modules differ: the one that was asked for, and the one in the code. -/
inductive ViewError.Cause.Alike (name name' : String) : ViewError.Cause → ViewError.Cause → Prop
  | same (cause : ViewError.Cause) : Alike name name' cause cause
  | compilation {ds ds' : List Diagnostic} (m : Manifest) :
      List.Forall₂ (Diagnostic.Alike name name') ds ds' →
      Alike name name' (.compilation ds { m with module := name }.code)
        (.compilation ds' { m with module := name' }.code)

/-- The code of a template is compiled alike under two names that the options do not declare. -/
theorem compile_alike (h : g.Lacks name) (h' : g.Lacks name') {m : Manifest}
    (hm : translate g name c = .ok m) (references : List String) :
    Except.Alike
      (fun e e' : CompilationError => ViewError.Cause.Alike name name'
        (.compilation e.diagnostics e.code) (.compilation e'.diagnostics e'.code))
      (fun m₁ m₂ : Manifest => m₂ = { m₁ with module := name' })
      (compile references name m.code)
      (compile references name' { m with module := name' }.code) := by
  obtain ⟨text, markup, -, -, hmarkup, -, rfl⟩ := translate_eq_ok_iff.mp hm
  have hcode : ∀ module, (markup.manifest g module c.origin).code =
      String.ofList ((Entry.module module).line.toList ++
        '\n' :: (markup.manifest g name c.origin).below) := by
    intro module
    rw [← String.ofList_toList (s := Manifest.code _), Manifest.toList_code_eq]
    rfl
  have hno : ∀ line ∈ headerBelow (markup.manifest g name c.origin).below,
      readEntry (stripLineEnd line) ≠ .ok (.module name) ∧
        readEntry (stripLineEnd line) ≠ .ok (.module name') := fun line hline =>
    ⟨readEntry_ne_module hmarkup h line hline, readEntry_ne_module hmarkup h' line hline⟩
  have hnamed : { markup.manifest g name c.origin with module := name' } =
      markup.manifest g name' c.origin := rfl
  have hread := Code.read_alike references h.inline h'.inline hno
  rw [← hcode, ← hcode] at hread
  rw [compile, compile, hnamed]
  generalize Code.read references name _ = x at hread
  generalize Code.read references name' _ = y at hread
  cases hread with
  | ok heq => exact .ok heq
  | error hds => exact .error (.compilation (markup.manifest g name c.origin) hds)

end Translated

/-- A view without the name of its module. -/
def View.nameless (v : View) : View := { v with module := { v.module with name := "" } }

/-- Two failures of one path that differ at most in the names of modules. -/
structure ViewError.Alike (e e' : ViewError) : Prop where
  path : e.path = e'.path
  cause : ∃ name name', e.cause.Alike name name' e'.cause

lemma ViewError.Alike.refl (e : ViewError) : e.Alike e := ⟨rfl, "", "", .same _⟩

/-- A workshop makes the same of a content, aside from names, whatever it has made before. -/
def Workshop.Impartial (w : Workshop) : Prop :=
  ∀ path content begun host begun' host',
    Except.Alike ViewError.Alike (fun v v' => v.nameless = v'.nameless)
      ({ w with begun := begun, host := host }.make path content).1
      ({ w with begun := begun', host := host' }.make path content).1

/-- The workshop of a configuration is impartial if the options declare none of its names. -/
theorem Workshop.impartial_standard {w : Workshop} {g : Generation} {references : List String}
    (hw : w.tools = .standard g references) (hnames : ∀ n, g.Lacks (w.nameOf (n + 1))) :
    w.Impartial := by
  intro path content begun host begun' host'
  have htranslate' := translate_eq_map g (w.nameOf (begun + 1)) (w.nameOf (begun' + 1)) content
  cases htranslate : translate g (w.nameOf (begun + 1)) content with
  | error ds =>
    rw [htranslate] at htranslate'
    simp only [make, hw, Toolchain.standard, htranslate, htranslate', Except.map, Except.mapError]
    exact .error ⟨rfl, "", "", .same _⟩
  | ok m =>
    rw [htranslate] at htranslate'
    have hcompile := compile_alike (hnames begun) (hnames begun') htranslate references
    simp only [make, hw, Toolchain.standard, htranslate, htranslate', Except.map, Except.mapError]
    generalize hx : CompiledViews.compile references (w.nameOf (begun + 1)) _ = x at hcompile
    generalize CompiledViews.compile references (w.nameOf (begun' + 1)) _ = y at hcompile
    cases hcompile with
    | error he => exact .error ⟨rfl, _, _, he⟩
    | @ok m₁ m₂ heq =>
      obtain ⟨-, nodes, hbody⟩ := of_compile_eq_ok hx
      subst heq
      have hload := load_image (m := { m₁ with module := w.nameOf (begun' + 1) }) hbody host'
      simp only [load_image hbody, hload]
      exact .ok rfl

end CompiledViews
