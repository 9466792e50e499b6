import CompiledViews.Directive.Block
import CompiledViews.Proofs.Directive.Reading
import CompiledViews.Proofs.List

/-! The leading block of a template, line by line. Lines that spell directives, put before a text,
are read as these directives, and what follows them is read as it is on its own. -/

namespace CompiledViews.Markup

open Text Directive

variable {front lines : List (List Char)} {ds : List Directive} {text : List Char}

/-- The lines of the leading block of a text. -/
def block (text : List Char) : List (List Char) :=
  (linesList text).take (blockLength (linesList text))

/-- The types that directives say to inherit from. -/
def types (ds : List Directive) : List String :=
  ds.filterMap fun
    | .inherits type => some type
    | .uses _ => none

/-- The namespaces that directives use, in order, with repetitions. -/
def namespaces (ds : List Directive) : List String :=
  ds.filterMap fun
    | .uses ns => some ns
    | .inherits _ => none

/-- Lines that are read as the given directives, one each. -/
def Spells (lines : List (List Char)) (ds : List Directive) : Prop :=
  lines.map ofLine? = ds.map fun d => some (.ok d)

/-- A text whose first line that is not blank is in no directive's shape. -/
def Plain (text : List Char) : Prop :=
  ∀ line ∈ (linesList text).find? (!isBlankLine ·), ofLine? line = none

instance : DecidablePred Plain := fun text =>
  inferInstanceAs <| Decidable <|
    ∀ line ∈ (linesList text).find? (!isBlankLine ·), ofLine? line = none

lemma inherited?_eq (ds : List Directive) : inherited? ds = (types ds).head? := by
  rw [types, List.head?_filterMap]; rfl

lemma imported_eq (ds : List Directive) : imported ds = (namespaces ds).eraseDups := rfl

lemma types_append (ds es : List Directive) : types (ds ++ es) = types ds ++ types es :=
  List.filterMap_append

lemma namespaces_append (ds es : List Directive) :
    namespaces (ds ++ es) = namespaces ds ++ namespaces es := List.filterMap_append

lemma mem_types {type : String} : type ∈ types ds ↔ .inherits type ∈ ds := by
  constructor
  · intro h
    obtain ⟨d, hd, hsome⟩ := List.mem_filterMap.mp h
    cases d with
    | inherits t => exact Option.some.inj hsome ▸ hd
    | uses ns => cases hsome
  · exact fun h => List.mem_filterMap.mpr ⟨_, h, rfl⟩

lemma mem_namespaces {ns : String} : ns ∈ namespaces ds ↔ .uses ns ∈ ds := by
  constructor
  · intro h
    obtain ⟨d, hd, hsome⟩ := List.mem_filterMap.mp h
    cases d with
    | uses ns => exact Option.some.inj hsome ▸ hd
    | inherits t => cases hsome
  · exact fun h => List.mem_filterMap.mpr ⟨_, h, rfl⟩

lemma mem_directives {d : Directive} :
    d ∈ directives lines ↔ ∃ line ∈ lines, ofLine? line = some (.ok d) := by
  rw [directives, List.mem_filterMap]
  refine exists_congr fun line => and_congr_right fun _ => ?_
  split
  case h_1 read hread => rw [hread, Option.some.injEq, Option.some.injEq, Except.ok.injEq]
  case h_2 hother => exact iff_of_false (by simp) (hother d)

/-- Blank lines are in no directive's shape. -/
theorem isBlankLine_of_isSome {line : List Char} (h : (ofLine? line).isSome) :
    isBlankLine line = false := by
  by_contra hblank
  have hnil : trimList line = [] := by
    simpa [trimList_eq_nil_iff, isBlankLine] using hblank
  simp [ofLine?, shape?, hnil] at h

/-- A block is in order when each of its lines that is in the shape of a directive is one, and it
names at most as many types as it may. -/
theorem faults_eq_nil_iff (line : Nat) (inherits : Bool) (lines : List (List Char)) :
    faults line inherits lines = [] ↔
      (∀ l ∈ lines, ∀ f, ofLine? l ≠ some (.error f)) ∧
        (types (directives lines)).length ≤ (!inherits).toNat := by
  induction lines generalizing line inherits with
  | nil => simp [faults, directives, types]
  | cons l ls ih =>
    rw [faults, List.forall_mem_cons]
    cases hl : ofLine? l with
    | none => simp [ih, directives, hl]
    | some read =>
      cases read with
      | error f => simp
      | ok d =>
        cases d with
        | uses ns => simp [ih, directives, types, hl]
        | inherits type => cases inherits <;> simp [ih, directives, types, hl]

/-- A template is cut exactly when its leading block has no faults. -/
theorem ofText_eq_ok_iff {m : Markup} :
    ofText text = .ok m ↔ faults 1 false (block text) = [] ∧
      m = ⟨(types (directives (block text))).head?,
        (namespaces (directives (block text))).eraseDups,
        ((linesList text).drop (blockLength (linesList text))).flatten,
        blockLength (linesList text)⟩ := by
  rw [ofText, ← inherited?_eq, ← imported_eq]
  split
  case h_1 hnil => exact ⟨fun h => ⟨hnil, (Except.ok.inj h).symm⟩, fun h => congrArg _ h.2.symm⟩
  case h_2 hne => exact iff_of_false (by simp) fun h => hne h.1

theorem ofText_eq_error_iff :
    (∃ ds, ofText text = .error ds) ↔ faults 1 false (block text) ≠ [] := by
  constructor
  · rintro ⟨ds, hds⟩ hnil
    rw [ofText_eq_ok_iff.mpr ⟨hnil, rfl⟩] at hds
    cases hds
  · intro hne
    cases hread : ofText text with
    | error ds => exact ⟨ds, rfl⟩
    | ok m => exact absurd (ofText_eq_ok_iff.mp hread).1 hne

/-- What a template says can be written on lines, and repeats nothing. -/
theorem inline_of_ofText {m : Markup} (h : ofText text = .ok m) :
    (∀ type ∈ m.inherits, Inline type) ∧ (∀ ns ∈ m.imports, Inline ns) ∧ m.imports.Nodup := by
  obtain ⟨-, rfl⟩ := ofText_eq_ok_iff.mp h
  refine ⟨fun type htype => ?_, fun ns hns => ?_, nodup_eraseDups _⟩
  · obtain ⟨line, hline, hread⟩ := mem_directives.mp (mem_types.mp (List.mem_of_mem_head? htype))
    exact inline_of_ofLine? (List.mem_of_mem_take hline) hread
  · obtain ⟨line, -, hread⟩ := mem_directives.mp (mem_namespaces.mp (List.mem_eraseDups.mp hns))
    exact inline_of_isQualifiedName (isQualifiedName_of_ofLine? hread)

namespace Spells

lemma length_eq (h : Spells front ds) : front.length = ds.length := by
  simpa using congrArg List.length h

lemma exists_ofLine? (h : Spells front ds) :
    ∀ line ∈ front, ∃ d, ofLine? line = some (.ok d) := by
  intro line hline
  have hmem : ofLine? line ∈ front.map ofLine? := List.mem_map_of_mem hline
  rw [h, List.mem_map] at hmem
  obtain ⟨d, -, hd⟩ := hmem
  exact ⟨d, hd.symm⟩

lemma isSome (h : Spells front ds) : ∀ line ∈ front, (ofLine? line).isSome := by
  intro line hline
  obtain ⟨d, hd⟩ := h.exists_ofLine? line hline
  rw [hd, Option.isSome_some]

lemma ne_error (h : Spells front ds) : ∀ line ∈ front, ∀ f, ofLine? line ≠ some (.error f) := by
  intro line hline f hf
  obtain ⟨d, hd⟩ := h.exists_ofLine? line hline
  cases hd.symm.trans hf

lemma directives_eq (h : Spells front ds) : directives front = ds := by
  induction ds generalizing front with
  | nil =>
    obtain rfl : front = [] := List.map_eq_nil_iff.mp h
    rfl
  | cons d ds ih =>
    obtain ⟨line, others, rfl, hline, hothers⟩ := List.map_eq_cons_iff.mp h
    have hcons : directives (line :: others) = d :: directives others := by
      rw [directives, List.filterMap_cons, hline]
      rfl
    rw [hcons, ih hothers]

/-- Directives put before some lines belong to the leading block. -/
theorem blockLength_append (h : Spells front ds) (lines : List (List Char)) :
    blockLength (front ++ lines) = ds.length + blockLength lines := by
  have hleading : ∀ line ∈ front, isLeading line = true := fun line hline => by
    simp [isLeading, h.isSome line hline]
  have hstop : front.reverse.dropWhile isBlankLine = front.reverse := by
    cases hr : front.reverse with
    | nil => rfl
    | cons line others =>
      have hline : line ∈ front := by rw [← List.mem_reverse, hr]; exact List.mem_cons_self
      exact List.dropWhile_cons_of_neg (by simp [isBlankLine_of_isSome (h.isSome line hline)])
  rw [blockLength, blockLength, List.takeWhile_append_of_pos hleading, List.reverse_append,
    List.dropWhile_append, ← h.length_eq]
  split
  case isTrue hnil => rw [hstop, List.isEmpty_iff.mp hnil]; simp
  case isFalse => simp [Nat.add_comm]

end Spells

section Prepend

variable {text' : List Char}

/-- Lines of directives before a text are the start of its leading block. -/
theorem block_prepend (h : Spells front ds) (hlines : linesList text' = front ++ linesList text) :
    block text' = front ++ block text := by
  rw [block, hlines, h.blockLength_append, ← h.length_eq, List.take_length_add_append]
  rfl

theorem directives_block_prepend (h : Spells front ds)
    (hlines : linesList text' = front ++ linesList text) :
    directives (block text') = ds ++ directives (block text) := by
  rw [block_prepend h hlines, directives, List.filterMap_append]
  exact congrArg (· ++ _) h.directives_eq

/-- The block of a text with directives before it is in order when its own block is, as far as the
types named before leave room for its types. -/
theorem faults_prepend (h : Spells front ds) (hlines : linesList text' = front ++ linesList text) :
    faults 1 false (block text') = [] ↔
      (∀ l ∈ block text, ∀ f, ofLine? l ≠ some (.error f)) ∧
        (types ds).length + (types (directives (block text))).length ≤ 1 := by
  rw [faults_eq_nil_iff, directives_block_prepend h hlines, block_prepend h hlines,
    List.forall_mem_append, types_append, List.length_append]
  exact and_congr_left fun _ => and_iff_right h.ne_error

/-- A text that names no type keeps what it says when directives are put before it. -/
theorem ofText_prepend (h : Spells front ds) (hlines : linesList text' = front ++ linesList text)
    (hds : (types ds).length ≤ 1) {imports : List String} {body : List Char} {offset : Nat}
    (htext : ofText text = .ok ⟨none, imports, body, offset⟩) :
    ofText text' = .ok ⟨(types ds).head?, (namespaces ds ++ imports).eraseDups, body,
      ds.length + offset⟩ := by
  obtain ⟨hfaults, hmarkup⟩ := ofText_eq_ok_iff.mp htext
  rw [Markup.mk.injEq] at hmarkup
  obtain ⟨hnone, rfl, rfl, rfl⟩ := hmarkup
  have htypes : types (directives (block text)) = [] := List.head?_eq_none_iff.mp hnone.symm
  have hfaults' : faults 1 false (block text') = [] := by
    rw [faults_prepend h hlines, htypes]
    exact ⟨((faults_eq_nil_iff ..).mp hfaults).1, hds⟩
  refine ofText_eq_ok_iff.mpr ⟨hfaults', ?_⟩
  rw [directives_block_prepend h hlines, hlines, h.blockLength_append, ← h.length_eq,
    List.drop_length_add_append, types_append, htypes, namespaces_append, List.append_nil,
    eraseDups_append_eraseDups]

/-- With a type named before it, a text must be in order and name no type itself. -/
theorem ofText_prepend_eq_error_iff (h : Spells front ds)
    (hlines : linesList text' = front ++ linesList text) (hds : (types ds).length = 1) :
    (∃ es, ofText text' = .error es) ↔
      (∃ es, ofText text = .error es) ∨ types (directives (block text)) ≠ [] := by
  rw [ofText_eq_error_iff, ofText_eq_error_iff, Ne, Ne, faults_prepend h hlines, faults_eq_nil_iff,
    hds, ← not_and_or, not_iff_not, and_assoc]
  refine and_congr_right fun _ => ?_
  rw [← List.length_eq_zero_iff, Bool.not_false, Bool.toNat_true]
  omega

end Prepend

/-- The leading block of a plain text is empty. -/
theorem Plain.blockLength_eq (h : Plain text) : blockLength (linesList text) = 0 := by
  have hblank : ∀ line ∈ (linesList text).takeWhile isLeading, isBlankLine line = true := by
    rw [Plain] at h
    generalize linesList text = lines at h
    induction lines with
    | nil => simp
    | cons l ls ih =>
      cases hl : isBlankLine l with
      | true =>
        rw [List.find?_cons_of_neg (by simp [hl])] at h
        rw [List.takeWhile_cons_of_pos (by simp [isLeading, hl]), List.forall_mem_cons]
        exact ⟨hl, ih h⟩
      | false =>
        rw [List.find?_cons_of_pos (by simp [hl])] at h
        rw [List.takeWhile_cons_of_neg (by simp [isLeading, hl, h l rfl])]
        simp
  rw [blockLength, List.dropWhile_eq_nil_iff.mpr (by simpa using hblank)]
  rfl

lemma Plain.block_eq (h : Plain text) : block text = [] := by
  rw [block, h.blockLength_eq, List.take_zero]

/-- A plain text is all body. -/
theorem Plain.ofText_eq (h : Plain text) : ofText text = .ok ⟨none, [], text, 0⟩ := by
  refine ofText_eq_ok_iff.mpr ⟨by rw [h.block_eq]; rfl, ?_⟩
  rw [h.block_eq, h.blockLength_eq, List.drop_zero, linesList_flatten]
  rfl

/-- The leading block is made of the first lines that may stand in one, without the blank lines at
their end. -/
lemma block_eq (text : List Char) :
    block text = ((linesList text).takeWhile isLeading).rdropWhile isBlankLine := by
  have hprefix := (List.rdropWhile_prefix isBlankLine ((linesList text).takeWhile isLeading)).trans
    (List.takeWhile_prefix isLeading)
  rw [List.prefix_iff_eq_take.mp hprefix, List.rdropWhile, List.length_reverse]
  rfl

lemma blockLength_le (text : List Char) :
    blockLength (linesList text) ≤ (linesList text).length := by
  have hprefix := (List.rdropWhile_prefix isBlankLine ((linesList text).takeWhile isLeading)).trans
    (List.takeWhile_prefix isLeading)
  simpa [blockLength, List.rdropWhile] using hprefix.length_le

lemma takeWhile_isLeading (text : List Char) : ∃ blanks, (∀ line ∈ blanks, isBlankLine line) ∧
    (linesList text).takeWhile isLeading = block text ++ blanks := by
  refine ⟨((linesList text).takeWhile isLeading).rtakeWhile isBlankLine, ?_, ?_⟩
  · exact fun line hline => List.mem_rtakeWhile_imp hline
  · rw [block_eq, List.rdropWhile_append_rtakeWhile]

/-- A line of the leading block is blank or in the shape of a directive, and the last one is not
blank. -/
lemma isLeading_of_mem_block {line : List Char} (h : line ∈ block text) : isLeading line := by
  rw [block_eq] at h
  exact List.mem_takeWhile_imp ((List.rdropWhile_prefix ..).subset h)

lemma isSome_of_getLast?_block {line : List Char} (h : line ∈ (block text).getLast?) :
    (ofLine? line).isSome := by
  have hleading := isLeading_of_mem_block (List.mem_of_mem_getLast? h)
  have hblank : isBlankLine line = false := by
    rw [block_eq] at h
    have hne : ((linesList text).takeWhile isLeading).rdropWhile isBlankLine ≠ [] := by
      rintro hnil
      simp [hnil] at h
    obtain rfl := Option.some.inj ((List.getLast?_eq_some_getLast hne).symm.trans h)
    exact Bool.eq_false_iff.mpr (List.rdropWhile_last_not _ _ hne)
  simpa [isLeading, hblank] using hleading

/-- Below the leading block there are blank lines, and then none that may stand in it. -/
lemma drop_blockLength (text : List Char) : ∃ blanks, (∀ line ∈ blanks, isBlankLine line) ∧
    (linesList text).drop (blockLength (linesList text)) =
      blanks ++ (linesList text).dropWhile isLeading := by
  obtain ⟨blanks, hblanks, htake⟩ := takeWhile_isLeading text
  refine ⟨blanks, hblanks, (List.append_right_inj (block text)).mp ?_⟩
  rw [← List.append_assoc, ← htake, List.takeWhile_append_dropWhile, block, List.take_append_drop]

/-- What is below the leading block of a text is plain. -/
lemma plain_below_block (text : List Char) :
    Plain ((linesList text).drop (blockLength (linesList text))).flatten := by
  obtain ⟨blanks, hblanks, hdrop⟩ := drop_blockLength text
  have hbelow : ∀ line ∈ ((linesList text).dropWhile isLeading).find? (!isBlankLine ·),
      ofLine? line = none := by
    have hfirst := List.head?_dropWhile_not isLeading (linesList text)
    cases hrest : (linesList text).dropWhile isLeading with
    | nil => simp
    | cons l ls =>
      obtain ⟨hblank, hshape⟩ : isBlankLine l = false ∧ ofLine? l = none := by
        simpa [hrest, isLeading] using hfirst
      rw [List.find?_cons_of_pos (by simp [hblank])]
      simpa using hshape
  have hnone : blanks.find? (!isBlankLine ·) = none := by simpa using hblanks
  rwa [Plain, (linesList_cut text _).2.1, hdrop, List.find?_append, hnone, Option.none_or]

end CompiledViews.Markup
