import CompiledViews.Proofs.Code.Translation

/-! The grammar of generated code. Code is compiled exactly when its header is made of lines each of
which says something, up to a line of dashes, and what they say is in order; what is wrong with
other code is told line by line. -/

namespace CompiledViews

open Text

lemma Origin.eq_word_of_ofWord? {word : String} {o : Origin} (h : Origin.ofWord? word = some o) :
    word = o.word := by
  unfold Origin.ofWord? at h
  split at h
  · rw [← Option.some.inj h]
    rfl
  · rw [← Option.some.inj h]
    rfl
  · cases h

namespace Code

namespace Entry

def module? : Entry → Option String
  | .module name => some name
  | _ => none

def ns? : Entry → Option String
  | .ns name => some name
  | _ => none

def inherits? : Entry → Option String
  | .inherits type => some type
  | _ => none

def import? : Entry → Option String
  | .import_ used => some used
  | _ => none

def origin? : Entry → Option Origin
  | .origin o => some o
  | _ => none

end Entry

variable {line key value : List Char} {lines : List (List Char)} {e : Entry}
  {references : List String} {module : String} {text : List Char}

/-- A line says what an entry says: after a hash mark and the keyword comes one space, and then a
text that is the value once it is trimmed. No value is empty. -/
def Says (line : List Char) (e : Entry) : Prop :=
  ∃ text, line = '#' :: (e.keyword.toList ++ ' ' :: text) ∧ trimList text = e.value.toList ∧
    e.value ≠ ""

/-- What is held against a line that says nothing. -/
def complaint (line : List Char) : String :=
  match keyAndValue? line with
  | some (key, value) =>
    if key = "origin".toList then s!"unknown origin '{String.ofList value}'"
    else s!"unrecognized header line '{String.ofList line}'"
  | none => s!"unrecognized header line '{String.ofList line}'"

lemma keyAndValue?_eq_some_iff : keyAndValue? line = some (key, value) ↔
    ' ' ∉ key ∧ value ≠ [] ∧
      ∃ text, line = '#' :: (key ++ ' ' :: text) ∧ trimList text = value := by
  constructor
  · intro h
    unfold keyAndValue? at h
    split at h
    · rename_i cs
      by_cases hspace : ' ' ∈ cs
      · obtain ⟨front, back, rfl, hfront⟩ := List.eq_append_cons_of_mem hspace
        have hstop : ∀ c ∈ front, decide (c ≠ ' ') = true :=
          fun c hc => by simpa using fun he : c = ' ' => hfront (he ▸ hc)
        rw [List.takeWhile_append_of_pos hstop, List.dropWhile_append_of_pos hstop,
          List.takeWhile_cons_of_neg (by simp), List.dropWhile_cons_of_neg (by simp),
          List.append_nil, List.drop_one, List.tail_cons] at h
        obtain ⟨hne, rfl, rfl⟩ := by simpa using h
        exact ⟨hfront, hne, back, rfl, rfl⟩
      · have hall : cs.dropWhile (fun c => decide (c ≠ ' ')) = [] := by
          rw [List.dropWhile_eq_nil_iff]
          exact fun c hc => by simpa using fun he : c = ' ' => hspace (he ▸ hc)
        rw [hall] at h
        cases h
    · cases h
  · rintro ⟨hkey, hne, text, rfl, rfl⟩
    have hstop : ∀ c ∈ key, decide (c ≠ ' ') = true :=
      fun c hc => by simpa using fun he : c = ' ' => hkey (he ▸ hc)
    rw [keyAndValue?, List.takeWhile_append_of_pos hstop, List.dropWhile_append_of_pos hstop,
      List.takeWhile_cons_of_neg (by simp), List.dropWhile_cons_of_neg (by simp),
      List.append_nil, List.drop_one, List.tail_cons]
    exact if_neg (by simpa using hne)

lemma keyAndValue?_of_says (h : Says line e) :
    keyAndValue? line = some (e.keyword.toList, e.value.toList) := by
  obtain ⟨text, rfl, htrim, hne⟩ := h
  exact keyAndValue?_eq_some_iff.mpr ⟨e.space_not_mem_keyword, by simpa using hne, text, rfl, htrim⟩

lemma says_of_keyAndValue? (h : keyAndValue? line = some (key, value))
    (hkey : e.keyword.toList = key) (hvalue : e.value.toList = value) : Says line e := by
  obtain ⟨-, hne, text, rfl, rfl⟩ := keyAndValue?_eq_some_iff.mp h
  subst hkey
  exact ⟨text, rfl, hvalue.symm, fun he => hne (hvalue ▸ by simp [he])⟩

theorem readEntry_eq_ok_iff : readEntry line = .ok e ↔ Says line e := by
  constructor
  · intro h
    unfold readEntry at h
    split at h
    · cases h
    · rename_i key value hread
      split_ifs at h with hmodule hns hinherits himport horigin
      · obtain rfl := Except.ok.inj h
        exact says_of_keyAndValue? hread hmodule.symm (by simp [Entry.value])
      · obtain rfl := Except.ok.inj h
        exact says_of_keyAndValue? hread hns.symm (by simp [Entry.value])
      · obtain rfl := Except.ok.inj h
        exact says_of_keyAndValue? hread hinherits.symm (by simp [Entry.value])
      · obtain rfl := Except.ok.inj h
        exact says_of_keyAndValue? hread himport.symm (by simp [Entry.value])
      · dsimp only at h
        split at h
        · rename_i o ho
          obtain rfl := Except.ok.inj h
          have hword := Origin.eq_word_of_ofWord? ho
          exact says_of_keyAndValue? hread horigin.symm (by simp [Entry.value, ← hword])
        · cases h
  · intro h
    rw [readEntry, keyAndValue?_of_says h]
    cases e <;> simp [Entry.keyword, Entry.value]

theorem readEntry_eq_error_iff {message : String} :
    readEntry line = .error message ↔ (¬∃ e, Says line e) ∧ message = complaint line := by
  have hcomplaint : ∀ {message}, readEntry line = .error message → message = complaint line := by
    intro message h
    unfold readEntry at h
    unfold complaint
    split at h
    · rename_i hread
      rw [hread]
      exact (Except.error.inj h).symm
    · rename_i key value hread
      rw [hread]
      split_ifs at h with hmodule hns hinherits himport horigin
      · dsimp only at h
        split at h
        · cases h
        · simpa [horigin] using (Except.error.inj h).symm
      · simp only [if_neg horigin]
        exact (Except.error.inj h).symm
  constructor
  · intro h
    refine ⟨fun ⟨e, he⟩ => ?_, hcomplaint h⟩
    rw [readEntry_eq_ok_iff.mpr he] at h
    cases h
  · rintro ⟨hnone, rfl⟩
    cases hread : readEntry line with
    | error message => rw [hcomplaint hread]
    | ok e => exact absurd ⟨e, readEntry_eq_ok_iff.mp hread⟩ hnone

/-- The entry that a line of code says, without its line end. -/
def entryOf? (line : List Char) : Option Entry := (readEntry (stripLineEnd line)).toOption

lemma entryOf?_eq_some_iff : entryOf? line = some e ↔ Says (stripLineEnd line) e := by
  rw [← readEntry_eq_ok_iff, entryOf?]
  cases readEntry (stripLineEnd line) <;> simp [Except.toOption]

lemma exists_says_iff : (∃ e, Says (stripLineEnd line) e) ↔ (entryOf? line).isSome := by
  simp only [← entryOf?_eq_some_iff, Option.isSome_iff_exists]

instance : Decidable (∃ e, Says (stripLineEnd line) e) := decidable_of_iff' _ exists_says_iff

/-- What some lines say, each with its number; lines that say nothing are left out. -/
def said (lines : List (List Char)) : List (ℕ × Entry) :=
  lines.zipIdx.filterMap fun (line, i) => (entryOf? line).map (i + 1, ·)

/-- What is wrong with the lines that say nothing. -/
def silentFaults (lines : List (List Char)) : List Diagnostic :=
  lines.zipIdx.filterMap fun (line, i) =>
    if ∃ e, Says (stripLineEnd line) e then none
    else some ⟨.error, "STC0100", complaint (stripLineEnd line), some ⟨i + 1, some 1⟩⟩

/-- What is wrong with the name of the module: it is the last that counts. -/
def moduleFaults (module : String) (es : List (ℕ × Entry)) : List Diagnostic :=
  match (es.filterMap fun (line, e) => e.module?.map (line, ·)).getLast? with
  | none => [⟨.error, "STC0100", "missing #module header", none⟩]
  | some (line, declared) =>
    if declared = module then []
    else [⟨.error, "STC0101", s!"code declares module '{declared}' but '{module}' was requested",
      some ⟨line, some 1⟩⟩]

/-- What is wrong with the imports: those that are no reference and not the last namespace. -/
def importFaults (references : List String) (es : List (ℕ × Entry)) : List Diagnostic :=
  es.filterMap fun (line, e) => e.import?.bind fun used =>
    if used ∈ references ∨ ((es.map (·.2)).filterMap Entry.ns?).getLast? = some used then none
    else some ⟨.error, "STC0246", s!"the namespace '{used}' could not be found",
      some ⟨line, some 1⟩⟩

/-- What is wrong with a body below some lines. -/
def bodyFaults (above : ℕ) (body : String) : List Diagnostic :=
  match Template.parse body with
  | .ok _ => []
  | .error f => [⟨.error, "STC0001", f.message,
      f.position?.map fun p => ⟨p.line + above, some p.column⟩⟩]

/-- The lines before the first line of dashes. -/
def header (text : List Char) : List (List Char) := (linesList text).takeWhile (!isSeparator ·)

/-- What follows the first line of dashes. -/
def body (text : List Char) : String :=
  String.ofList ((linesList text).drop ((header text).length + 1)).flatten

/-- Everything that is wrong with a text as the code of a module. -/
def faults (references : List String) (module : String) (text : List Char) : List Diagnostic :=
  silentFaults (header text) ++
    if (linesList text).any isSeparator then
      moduleFaults module (said (header text)) ++ importFaults references (said (header text)) ++
        bodyFaults ((header text).length + 1) (body text)
    else [⟨.error, "STC0100", "missing '---' separator", none⟩]

/-- The manifest of a module of which entries and a body are known: the last of each kind of entry
counts, except that all imports do. -/
def manifestOf (module : String) (es : List Entry) (body : String) : Manifest where
  module := module
  ns := (es.filterMap Entry.ns?).getLast?.getD ""
  inherits := (es.filterMap Entry.inherits?).getLast?.getD ""
  imports := es.filterMap Entry.import?
  origin := (es.filterMap Entry.origin?).getLast?.getD .text
  body := body

lemma said_eq (lines : List (List Char)) : said lines =
    (readEntries (lines.map stripLineEnd)).filterMap fun (line, read) =>
      read.toOption.map (line, ·) := by
  simp [said, readEntries, List.zipIdx_map, List.filterMap_map, Function.comp_def, entryOf?]

lemma badEntries_eq (lines : List (List Char)) :
    badEntries (readEntries (lines.map stripLineEnd)) = silentFaults lines := by
  rw [badEntries, readEntries, silentFaults, List.zipIdx_map, List.map_map, List.filterMap_map]
  congr 1
  funext p
  obtain ⟨line, i⟩ := p
  cases hread : readEntry (stripLineEnd line) with
  | ok e =>
    have hsays : ∃ e, Says (stripLineEnd line) e := ⟨e, readEntry_eq_ok_iff.mp hread⟩
    simp [hread, hsays]
  | error message =>
    obtain ⟨hnone, rfl⟩ := readEntry_eq_error_iff.mp hread
    simp [hread, hnone, Diagnostic.errorAtLine, Diagnostic.badHeader]

lemma last?_eq {α : Type} (f : Entry → Option α) (lines : List (List Char)) :
    last? (readEntries (lines.map stripLineEnd)) f =
      ((said lines).filterMap fun (line, e) => (f e).map (line, ·)).getLast? := by
  rw [last?, said_eq, List.filterMap_filterMap, List.getLast?_filterMap]
  congr 1
  funext p
  obtain ⟨line, read⟩ := p
  cases read <;> rfl

lemma imports_eq (lines : List (List Char)) : imports (readEntries (lines.map stripLineEnd)) =
    (said lines).filterMap fun (line, e) => e.import?.map (line, ·) := by
  rw [imports, said_eq, List.filterMap_filterMap]
  congr 1
  funext p
  obtain ⟨line, read⟩ := p
  cases read with
  | error message => rfl
  | ok e => cases e <;> rfl

section Last

variable {α : Type} (f : Entry → Option α) (es : List (ℕ × Entry))

lemma map_filterMap_said : (es.filterMap fun (line, e) => (f e).map (line, ·)).map (·.2) =
    (es.map (·.2)).filterMap f := by
  rw [List.map_filterMap, List.filterMap_map]
  congr 1
  funext p
  obtain ⟨line, e⟩ := p
  simp [Function.comp_def]

lemma getLast?_said : ((es.filterMap fun (line, e) => (f e).map (line, ·)).getLast?).map (·.2) =
    ((es.map (·.2)).filterMap f).getLast? := by
  rw [← List.getLast?_map, map_filterMap_said]

end Last

lemma map_said (lines : List (List Char)) : (said lines).map (·.2) = lines.filterMap entryOf? := by
  conv_rhs => rw [← List.zipIdx_map_fst 0 lines, List.filterMap_map]
  rw [said, List.map_filterMap]
  congr 1
  funext p
  obtain ⟨line, i⟩ := p
  simp [Function.comp_def]

lemma value_ne_empty {entry : ℕ × Entry} (h : entry ∈ said lines) : entry.2.value ≠ "" := by
  obtain ⟨⟨line, i⟩, -, hentry⟩ := List.mem_filterMap.mp h
  obtain ⟨e, he, rfl⟩ := Option.map_eq_some_iff.mp hentry
  obtain ⟨text, -, -, hne⟩ := entryOf?_eq_some_iff.mp he
  exact hne

lemma moduleFaults_eq (module : String) (es : List (ℕ × Entry)) :
    checkModule module (es.filterMap fun (line, e) => e.module?.map (line, ·)).getLast? =
      moduleFaults module es := by
  rw [moduleFaults]
  cases (es.filterMap fun (line, e) => e.module?.map (line, ·)).getLast? <;> rfl

/-- No import is empty, so a namespace that is not given is none of them. -/
lemma importFaults_eq (references : List String) (lines : List (List Char)) :
    checkImports references ((((said lines).map (·.2)).filterMap Entry.ns?).getLast?.getD "")
        ((said lines).filterMap fun (line, e) => e.import?.map (line, ·)) =
      importFaults references (said lines) := by
  rw [checkImports, importFaults, List.filterMap_filterMap]
  refine List.filterMap_congr fun entry hentry => ?_
  have hne := value_ne_empty hentry
  obtain ⟨line, e⟩ := entry
  cases e with
  | import_ used =>
    have hlast : ∀ last : Option String, used = last.getD "" ↔ last = some used := by
      rintro (_ | ns)
      · exact iff_of_false hne (by simp)
      · simp [eq_comm]
    simp only [Entry.import?, hlast, Option.map_some, Option.bind_some, Bool.or_eq_true,
      decide_eq_true_eq, List.contains_iff_mem]
    rfl
  | _ => rfl

lemma bodyFaults_eq (above : ℕ) (body : String) :
    (match readBody above body with
      | .ok _ => []
      | .error d => [d]) = bodyFaults above body := by
  unfold readBody bodyFaults
  cases Template.parse body <;> rfl

lemma length_header_eq_iff (text : List Char) :
    (header text).length = (linesList text).length ↔ (linesList text).any isSeparator = false := by
  have hself : (header text).length = (linesList text).length ↔ header text = linesList text :=
    ⟨(List.takeWhile_prefix _).eq_of_length, congrArg List.length⟩
  rw [hself, header, List.takeWhile_eq_self_iff, List.any_eq_false]
  simp

lemma faults_of_unseparated (h : (linesList text).any isSeparator = false) :
    faults references module text = silentFaults (header text) ++
      [.error Diagnostic.badHeader "missing '---' separator"] := by
  rw [faults, if_neg (by simp [h])]
  rfl

lemma faults_of_separated (h : (linesList text).any isSeparator = true) :
    faults references module text = silentFaults (header text) ++
      checkModule module
        ((said (header text)).filterMap fun (line, e) => e.module?.map (line, ·)).getLast? ++
      checkImports references
        ((((said (header text)).map (·.2)).filterMap Entry.ns?).getLast?.getD "")
        ((said (header text)).filterMap fun (line, e) => e.import?.map (line, ·)) ++
      match readBody ((header text).length + 1) (body text) with
      | .ok _ => []
      | .error d => [d] := by
  rw [moduleFaults_eq, importFaults_eq, bodyFaults_eq, List.append_assoc, List.append_assoc,
    ← List.append_assoc (moduleFaults module _), faults, if_pos h]

/-- Reading told by the entries of the header and by what is picked from them. -/
lemma read_eq_picked (references : List String) (module text : String) :
    let lines := header text.toList
    let entries := readEntries (lines.map stripLineEnd)
    let ns := ((last? entries Entry.ns?).map (·.2)).getD ""
    Code.read references module text =
      if lines.length = (linesList text.toList).length then
        .error (badEntries entries ++ [.error Diagnostic.badHeader "missing '---' separator"])
      else match badEntries entries ++ checkModule module (last? entries Entry.module?) ++
          checkImports references ns (imports entries) ++
          (match readBody (lines.length + 1) (body text.toList) with
            | .ok _ => []
            | .error d => [d]) with
        | [] => .ok ⟨module, ns, ((last? entries Entry.inherits?).map (·.2)).getD "",
            (imports entries).map (·.2), ((last? entries Entry.origin?).map (·.2)).getD .text,
            body text.toList⟩
        | ds => .error ds := by
  have hheader : (linesList text.toList).takeWhile (!isSeparator ·) = header text.toList := rfl
  have hbody : String.ofList ((linesList text.toList).drop
      ((header text.toList).length + 1)).flatten = body text.toList := rfl
  unfold Code.read
  simp only [hheader, hbody]
  generalize readBody ((header text.toList).length + 1) (body text.toList) = read
  rfl

theorem read_eq (references : List String) (module text : String) :
    Code.read references module text =
      if faults references module text.toList = [] then
        .ok (manifestOf module ((said (header text.toList)).map (·.2)) (body text.toList))
      else .error (faults references module text.toList) := by
  rw [read_eq_picked]
  simp only [badEntries_eq, last?_eq, imports_eq, length_header_eq_iff, getLast?_said,
    map_filterMap_said]
  split
  case isTrue hnone =>
    rw [faults_of_unseparated hnone, if_neg (by simp)]
  case isFalse hsome =>
    rw [faults_of_separated (by simpa using hsome)]
    split
    case h_1 hnil => exact (if_pos hnil).symm
    case h_2 hne => exact (if_neg hne).symm

lemma silentFaults_eq_nil_iff :
    silentFaults lines = [] ↔ ∀ line ∈ lines, (entryOf? line).isSome := by
  rw [silentFaults, List.filterMap_eq_nil_iff]
  constructor
  · intro h line hline
    rw [← List.zipIdx_map_fst 0 lines] at hline
    obtain ⟨entry, hentry, rfl⟩ := List.mem_map.mp hline
    rw [← exists_says_iff]
    by_contra hnone
    simpa [hnone] using h entry hentry
  · rintro h ⟨line, i⟩ hentry
    exact if_pos (exists_says_iff.mpr (h line (List.fst_mem_of_mem_zipIdx hentry)))

/-- Lines say some entries when none of them says nothing, and these are what they say. -/
lemma forall₂_says_iff {es : List Entry} :
    List.Forall₂ (fun line e => Says (stripLineEnd line) e) lines es ↔
      silentFaults lines = [] ∧ es = (said lines).map (·.2) := by
  simp only [silentFaults_eq_nil_iff, map_said, ← entryOf?_eq_some_iff]
  constructor
  · intro h
    induction h with
    | nil => simp
    | cons hline _ ih => simpa [hline] using ih
  · rintro ⟨hsome, rfl⟩
    induction lines with
    | nil => exact .nil
    | cons line lines ih =>
      rw [List.forall_mem_cons] at hsome
      obtain ⟨e, he⟩ := Option.isSome_iff_exists.mp hsome.1
      rw [List.filterMap_cons_some he]
      exact .cons he (ih hsome.2)

lemma moduleFaults_eq_nil_iff (es : List (ℕ × Entry)) : moduleFaults module es = [] ↔
    ((es.map (·.2)).filterMap Entry.module?).getLast? = some module := by
  rw [moduleFaults, ← getLast?_said]
  cases (es.filterMap fun (line, e) => e.module?.map (line, ·)).getLast? with
  | none => simp
  | some declared => by_cases h : declared.2 = module <;> simp [h]

lemma importFaults_eq_nil_iff (es : List (ℕ × Entry)) : importFaults references es = [] ↔
    ∀ used ∈ (es.map (·.2)).filterMap Entry.import?, used ∈ references ∨
      ((es.map (·.2)).filterMap Entry.ns?).getLast? = some used := by
  rw [importFaults, List.filterMap_eq_nil_iff, List.forall_mem_filterMap, List.forall_mem_map]
  refine forall₂_congr fun entry _ => ?_
  cases himport : entry.2.import? with
  | none => simp [himport]
  | some used => simp [himport, or_iff_not_imp_left]

lemma bodyFaults_eq_nil_iff {above : ℕ} {body : String} :
    bodyFaults above body = [] ↔ ∃ nodes, Template.parse body = .ok nodes := by
  unfold bodyFaults
  cases Template.parse body <;> simp

/-- A text that is made of lines that say some entries, a line of dashes, and a body. A line that
says something is not one of dashes. -/
def Spells (text : List Char) (es : List Entry) (rest : String) : Prop :=
  ∃ above dashes below, linesList text = above ++ dashes :: below ∧
    List.Forall₂ (fun line e => Says (stripLineEnd line) e) above es ∧
    stripLineEnd dashes = "---".toList ∧ rest = String.ofList below.flatten

lemma Says.isSeparator_eq_false (h : Says (stripLineEnd line) e) : isSeparator line = false := by
  obtain ⟨text, hline, -⟩ := h
  rw [isSeparator, hline]
  exact decide_eq_false (by simp)

theorem spells_iff {es : List Entry} {rest : String} : Spells text es rest ↔
    (linesList text).any isSeparator = true ∧ silentFaults (header text) = [] ∧
      es = (said (header text)).map (·.2) ∧ rest = body text := by
  constructor
  · rintro ⟨above, dashes, below, hlines, hsays, hdashes, rfl⟩
    have habove : ∀ line ∈ above, (!isSeparator line) = true := by
      intro line hline
      obtain ⟨e, -, he⟩ := exists_of_mem_left hsays line hline
      simp [he.isSeparator_eq_false]
    have hseparator : isSeparator dashes = true := decide_eq_true hdashes
    have hheader : header text = above := by
      rw [header, hlines, List.takeWhile_append_of_pos habove,
        List.takeWhile_cons_of_neg (by simp [hseparator]), List.append_nil]
    obtain ⟨hsilent, hes⟩ := forall₂_says_iff.mp hsays
    rw [body, hheader, hlines, List.drop_length_add_append]
    exact ⟨by simp [hseparator], hsilent, hes, rfl⟩
  · rintro ⟨hany, hsilent, hes, rfl⟩
    have hsplit : header text ++ (linesList text).dropWhile (!isSeparator ·) = linesList text :=
      List.takeWhile_append_dropWhile
    cases hdrop : (linesList text).dropWhile (!isSeparator ·) with
    | nil =>
      obtain ⟨dashes, hdashes, hseparator⟩ := List.any_eq_true.mp hany
      have hnot := List.dropWhile_eq_nil_iff.mp hdrop dashes hdashes
      simp [hseparator] at hnot
    | cons dashes below =>
      have hdashes : isSeparator dashes = true := by
        have hhead := List.head?_dropWhile_not (!isSeparator ·) (linesList text)
        simpa [hdrop] using hhead
      rw [hdrop] at hsplit
      refine ⟨header text, dashes, below, hsplit.symm, forall₂_says_iff.mpr ⟨hsilent, hes⟩,
        of_decide_eq_true hdashes, ?_⟩
      rw [body, ← hsplit, List.drop_length_add_append]
      rfl

lemma faults_eq_nil_iff : faults references module text = [] ↔
    ((linesList text).any isSeparator = true ∧ silentFaults (header text) = []) ∧
      moduleFaults module (said (header text)) = [] ∧
      importFaults references (said (header text)) = [] ∧
      bodyFaults ((header text).length + 1) (body text) = [] := by
  rw [faults]
  by_cases hany : (linesList text).any isSeparator = true
  · rw [if_pos hany, List.append_eq_nil_iff, List.append_eq_nil_iff, List.append_eq_nil_iff]
    simp only [hany, true_and, and_assoc]
  · rw [if_neg hany]
    simp [hany]

/-- All that is ever wrong with code are errors. -/
lemma severity_of_mem_faults : ∀ d ∈ faults references module text, d.severity = .error := by
  have hsilent : ∀ d ∈ silentFaults (header text), d.severity = .error := by
    intro d hd
    obtain ⟨⟨line, i⟩, -, hfault⟩ := List.mem_filterMap.mp hd
    dsimp only at hfault
    split_ifs at hfault
    rw [← Option.some.inj hfault]
  have hmodule : ∀ d ∈ moduleFaults module (said (header text)), d.severity = .error := by
    intro d hd
    unfold moduleFaults at hd
    split at hd
    · rw [List.mem_singleton.mp hd]
    · split_ifs at hd
      · cases hd
      · rw [List.mem_singleton.mp hd]
  have himports : ∀ d ∈ importFaults references (said (header text)), d.severity = .error := by
    intro d hd
    obtain ⟨⟨line, e⟩, -, hfault⟩ := List.mem_filterMap.mp hd
    obtain ⟨used, -, hused⟩ := Option.bind_eq_some_iff.mp hfault
    split_ifs at hused
    rw [← Option.some.inj hused]
  have hbody : ∀ d ∈ bodyFaults ((header text).length + 1) (body text), d.severity = .error := by
    intro d hd
    unfold bodyFaults at hd
    split at hd
    · cases hd
    · rw [List.mem_singleton.mp hd]
  rw [faults, List.forall_mem_append]
  refine ⟨hsilent, ?_⟩
  split
  · simp only [List.forall_mem_append]
    exact ⟨⟨hmodule, himports⟩, hbody⟩
  · simp

/-- Code is compiled when it is made of lines that say something, a line of dashes and a body that
can be read, the last name of a module is the one that is asked for, and all imports are found; the
manifest is made of what the lines say. Otherwise everything that is wrong is told: first each line
that says nothing, and then that there is no line of dashes or what is wrong below, in the order
module, imports, body. -/
theorem compile_grammar (references : List String) (module code : String) :
    (∀ m, compile references module code = .ok m ↔
      ∃ es rest, Spells code.toList es rest ∧
        (es.filterMap Entry.module?).getLast? = some module ∧
        (∀ used ∈ es.filterMap Entry.import?,
          used ∈ references ∨ (es.filterMap Entry.ns?).getLast? = some used) ∧
        (∃ nodes, Template.parse rest = .ok nodes) ∧ m = manifestOf module es rest) ∧
    ∀ e, compile references module code = .error e →
      e.module = module ∧ e.code = code ∧ e.diagnostics ≠ [] ∧
        (∀ d ∈ e.diagnostics, d.severity = .error) ∧
        e.diagnostics = faults references module code.toList := by
  constructor
  · intro m
    have hok : compile references module code = .ok m ↔ faults references module code.toList = [] ∧
        m = manifestOf module ((said (header code.toList)).map (·.2)) (body code.toList) := by
      rw [compile, Except.mapError_eq_ok_iff, read_eq]
      split
      case isTrue hnil => simp [hnil, eq_comm]
      case isFalse hne => simp [hne]
    rw [hok, faults_eq_nil_iff, moduleFaults_eq_nil_iff, importFaults_eq_nil_iff,
      bodyFaults_eq_nil_iff]
    constructor
    · rintro ⟨⟨⟨hany, hsilent⟩, hmodule, himports, hbody⟩, rfl⟩
      exact ⟨_, _, spells_iff.mpr ⟨hany, hsilent, rfl, rfl⟩, hmodule, himports, hbody, rfl⟩
    · rintro ⟨es, rest, hspells, hmodule, himports, hbody, rfl⟩
      obtain ⟨hany, hsilent, rfl, rfl⟩ := spells_iff.mp hspells
      exact ⟨⟨⟨hany, hsilent⟩, hmodule, himports, hbody⟩, rfl⟩
  · intro e he
    rw [compile, read_eq] at he
    split at he
    case isTrue => cases he
    case isFalse hne =>
      obtain rfl := Except.error.inj he
      exact ⟨rfl, rfl, hne, severity_of_mem_faults, rfl⟩

theorem compile_grammar_repeated :
    let code := "#module N\r\n#import A.B\r\n#namespace Old\n#module M\n#import A.B\n" ++
      "#namespace  A.B \r\r\n---\r\n---\n#module N\n{{x}}"
    let m : Manifest := ⟨"M", "A.B", "", ["A.B", "A.B"], .text, "---\n#module N\n{{x}}"⟩
    let broken := "#module N\r\n\n#origin book\n#import Lost\n---\n\n\x7b\x7b"
    let ds : List Diagnostic :=
      [⟨.error, "STC0100", "unrecognized header line ''", some ⟨2, some 1⟩⟩,
        ⟨.error, "STC0100", "unknown origin 'book'", some ⟨3, some 1⟩⟩,
        ⟨.error, "STC0101", "code declares module 'N' but 'M' was requested", some ⟨1, some 1⟩⟩,
        ⟨.error, "STC0246", "the namespace 'Lost' could not be found", some ⟨4, some 1⟩⟩,
        ⟨.error, "STC0001", "invalid handlebars syntax", some ⟨7, some 3⟩⟩]
    (compile [] "M" code = .ok m ∧ ∃ es rest, Spells code.toList es rest ∧
      (es.filterMap Entry.module?).getLast? = some "M" ∧ m = manifestOf "M" es rest) ∧
    compile [] "M" broken = .error ⟨"M", ds, broken⟩ ∧ ds = faults [] "M" broken.toList := by
  intro code m broken ds
  have hok : compile [] "M" code = .ok m := by decide +kernel
  have herror : compile [] "M" broken = .error ⟨"M", ds, broken⟩ := by decide +kernel
  obtain ⟨es, rest, hspells, hmodule, -, -, hm⟩ := ((compile_grammar [] "M" code).1 m).mp hok
  obtain ⟨-, -, -, -, hfaults⟩ := (compile_grammar [] "M" broken).2 _ herror
  exact ⟨⟨hok, es, rest, hspells, hmodule, hm⟩, herror, hfaults⟩

end Code

end CompiledViews
