import CompiledViews.Proofs.Template.Rule
import CompiledViews.Template.Helper

/-!
Tags that print a field of the model. Whichever braces such a tag has, and whatever blanks stand
around the name, it is read as the same tag, which is as long as its text.
-/

namespace CompiledViews.Template

open Grammar Grammar.Rule

/-- A name that stands for a field of the model, and for nothing else. -/
structure IsFieldName (name : String) : Prop where
  ne_nil : name.toList ≠ []
  chars : ∀ c ∈ name.toList, isNameChar c = true
  ne_this : name ≠ "this"
  ne_else : name ≠ "else"
  noHelper : Helper.ofName? name = none

/-- How a tag that prints a value is written; values are printed as they are in any case. -/
inductive Braces where
  | two
  | three
  | ampersand
  deriving DecidableEq

namespace Braces

def opening : Braces → List Char
  | two => "\x7b\x7b".toList
  | three => "\x7b\x7b\x7b".toList
  | ampersand => "\x7b\x7b&".toList

def closing : Braces → List Char
  | two | ampersand => "\x7d\x7d".toList
  | three => "\x7d\x7d\x7d".toList

end Braces

/-- A tag that prints a field, with the blanks around the name. -/
structure Hole where
  name : String
  braces : Braces := .two
  before : List Char := []
  after : List Char := []
  isFieldName : IsFieldName name
  before_blank : ∀ c ∈ before, isSpace c = true := by simp
  after_blank : ∀ c ∈ after, isSpace c = true := by simp

namespace Hole

def text (h : Hole) : List Char :=
  h.braces.opening ++ h.before ++ h.name.toList ++ h.after ++ h.braces.closing

def call (h : Hole) : Call where
  name := .path ⟨[.field h.name], h.name⟩

/-- The tag at a place. -/
def tag (h : Hole) (place : ℕ) : Tag where
  start := place
  stop := place + h.text.length
  role := .value h.call
  trimsBefore := false
  trimsAfter := false

end Hole

/-! Characters that stand in names are no blanks and no marks. -/

variable {c : Cursor} {x : Char} {n : ℕ} {cs rest word : List Char} {place : ℕ} {name : String}

lemma ne_of_isNameChar {x y : Char} (hx : isNameChar x = true) (hy : isNameChar y = false) :
    x ≠ y := by
  rintro rfl
  rw [hx] at hy
  cases hy

lemma isSpace_eq_false_of_isNameChar (h : isNameChar x = true) : isSpace x = false := by
  have hne : ∀ y, isNameChar y = false → x ≠ y := fun y => ne_of_isNameChar h
  simp [isSpace, hne ' ' (by decide), hne '\t' (by decide), hne '\r' (by decide),
    hne '\n' (by decide)]

lemma isNameChar_eq_false_of_isSpace (h : isSpace x = true) : isNameChar x = false := by
  by_contra hname
  rw [isSpace_eq_false_of_isNameChar (Bool.not_eq_false _ ▸ hname)] at h
  cases h

/-- The text goes on with a brace or an ampersand, if it goes on. -/
def Ends (c : Cursor) : Prop := ∀ x ∈ c.rest.head?, x ∈ ['\x7b', '\x7d', '&']

namespace Ends

lemma ne (h : Ends c) (hx : x ∉ ['\x7b', '\x7d', '&']) : ∀ y ∈ c.rest.head?, y ≠ x := by
  rintro y hy rfl
  exact hx (h y hy)

lemma not_isNameChar (h : Ends c) : ∀ y ∈ c.rest.head?, isNameChar y = false := by
  intro y hy
  have hmem := h y hy
  simp only [List.mem_cons, List.not_mem_nil, or_false] at hmem
  rcases hmem with rfl | rfl | rfl <;> decide

lemma not_isSpace (h : Ends c) : ∀ y ∈ c.rest.head?, isSpace y = false := by
  intro y hy
  have hmem := h y hy
  simp only [List.mem_cons, List.not_mem_nil, or_false] at hmem
  rcases hmem with rfl | rfl | rfl <;> decide

lemma refuses_ident (h : Ends c) : ident.Refuses c :=
  (refuses_some1 h.not_isNameChar).bind.construct

lemma refuses_item (h : Ends c) : item.Refuses c :=
  ((refuses_some1 h.not_isNameChar).construct.orElse
    (refuses_exactly_cons (h.ne (by decide)) []).bind).bind

lemma refuses_path (h : Ends c) : path.Refuses c := by
  refine Refuses.construct ((reads_cursor c).bind_refuses ?_)
  have hthis := (refuses_exactly_cons (h.ne (x := 't') (by decide)) "his".toList)
  have hdot : ∀ word, (exactly ('.' :: word)).Refuses c := refuses_exactly_cons (h.ne (by decide))
  have hat : ∀ word, (exactly ('@' :: word)).Refuses c := refuses_exactly_cons (h.ne (by decide))
  refine (hthis.bind.orElse (hdot ['/'])).optional.bind_refuses ?_
  refine (hat "root".toList).construct.bind.optional.bind_refuses ?_
  refine (hat []).construct.optional.bind_refuses ?_
  refine (hdot ['.']).construct.bind.many.bind_refuses ?_
  exact h.refuses_item.bind

lemma refuses_nested (h : Ends c) (n : ℕ) : (nested n).Refuses c := by
  cases n with
  | zero => exact refuses_refuse c
  | succ n => exact (refuses_exactly_cons (h.ne (by decide)) []).bind.construct

lemma refuses_valueCall (h : Ends c) (n : ℕ) : (valueCall n).Refuses c :=
  h.refuses_ident.bind.orElse ((h.refuses_nested n).bind.orElse h.refuses_path.bind)

lemma refuses_elseWord (h : Ends c) : elseWord.Refuses c :=
  ((refuses_exactly_cons (h.ne (x := 'e') (by decide)) "lse".toList).bind.orElse
    (refuses_exactly_cons (h.ne (by decide)) [])).construct

end Ends

/-- The text goes on with a closing brace. -/
def Closes (c : Cursor) : Prop := c.rest.head? = some '\x7d'

namespace Closes

lemma ends (h : Closes c) : Ends c := by
  intro x hx
  obtain rfl : '\x7d' = x := Option.some.inj (h.symm.trans hx)
  decide

lemma ne (h : Closes c) (hx : x ≠ '\x7d') : ∀ y ∈ c.rest.head?, y ≠ x := by
  intro y hy
  obtain rfl : '\x7d' = y := Option.some.inj (h.symm.trans hy)
  exact hx.symm

lemma refuses_exactly (h : Closes c) (hx : x ≠ '\x7d') (word : List Char) :
    (exactly (x :: word)).Refuses c := refuses_exactly_cons (h.ne hx) word

lemma refuses_number (h : Closes c) : numberLiteral.Refuses c := by
  have hdigit : ∀ y ∈ c.rest.head?, y.isDigit = false := by
    intro y hy
    obtain rfl : '\x7d' = y := Option.some.inj (h.symm.trans hy)
    decide
  refine Refuses.construct ((h.refuses_exactly (by decide) []).optional.bind_refuses ?_)
  exact (refuses_some1 hdigit).bind

lemma refuses_literalExtent (h : Closes c) (n : ℕ) : (literalExtent n).Refuses c := by
  cases n with
  | zero => exact refuses_refuse c
  | succ n =>
    have hstring : stringLiteral.Refuses c :=
      ((h.refuses_exactly (by decide) []).bind.orElse
        (h.refuses_exactly (by decide) []).bind).construct
    have hnull : nullLiteral.Refuses c :=
      (h.refuses_exactly (x := 'n') (by decide) "ull".toList).bind.construct
    have hbool : boolLiteral.Refuses c :=
      ((h.refuses_exactly (x := 't') (by decide) "rue".toList).orElse
        (h.refuses_exactly (x := 'f') (by decide) "alse".toList)).bind.construct
    refine Refuses.construct ?_
    exact hstring.orElse <| (h.refuses_exactly (by decide) []).bind.construct.orElse <|
      (h.refuses_exactly (by decide) []).bind.construct.orElse <|
      h.refuses_number.orElse <| hnull.orElse hbool

lemma refuses_param (h : Closes c) (n : ℕ) : (param n).Refuses c := by
  cases n with
  | zero => exact refuses_refuse c
  | succ n =>
    have hkeyword : keyword.Refuses c :=
      ((h.refuses_exactly (x := 'a') (by decide) "s".toList).orElse
        (h.refuses_exactly (x := 'e') (by decide) "lse".toList)).construct
    have hliteral : (literal n).Refuses c :=
      (reads_cursor c).bind_refuses (h.refuses_literalExtent n).bind
    exact (hkeyword.bind.absent.bind_refuses
      (hliteral.orElse (h.ends.refuses_path.bind.orElse (h.ends.refuses_nested n)))).construct

lemma refuses_arg (h : Closes c) (n : ℕ) : (arg n).Refuses c := by
  cases n with
  | zero => exact refuses_refuse c
  | succ n =>
    exact h.ends.refuses_ident.bind.construct.orElse (h.refuses_param n).bind

end Closes

/-- The text goes on with a blank or a closing brace, so that a name ends here. -/
def EndsName (rest : List Char) : Prop := ∀ x ∈ rest.head?, isSpace x = true ∨ x = '\x7d'

lemma EndsName.not_isNameChar (h : EndsName rest) : ∀ x ∈ rest.head?, isNameChar x = false := by
  intro x hx
  rcases h x hx with hspace | rfl
  · exact isNameChar_eq_false_of_isSpace hspace
  · decide

lemma EndsName.refuses_separator (h : EndsName rest) (place : ℕ) :
    separator.Refuses ⟨rest, place⟩ := by
  refine refuses_char fun x hx => ?_
  rcases h x hx with hspace | rfl
  · simp only [isSpace, Bool.or_eq_true, decide_eq_true_eq] at hspace
    rcases hspace with ((rfl | rfl) | rfl) | rfl <;> decide
  · decide

/-- A word that the text begins with is the beginning of the name there. -/
lemma prefix_of_prefix_append (hword : ∀ x ∈ word, isNameChar x = true)
    (hrest : ∀ x ∈ rest.head?, isNameChar x = false) (h : word <+: cs ++ rest) : word <+: cs := by
  obtain ⟨tail, htail⟩ := h
  rcases List.append_eq_append_iff.mp htail with ⟨more, rfl, -⟩ | ⟨more, rfl, hmore⟩
  · exact List.prefix_append word more
  · cases more with
    | nil => simp
    | cons x more =>
      have hx := hword x (by simp)
      rw [hrest x (by simp [hmore])] at hx
      cases hx

/-- A name does not count as a word that it only begins with. -/
lemma refuses_word {β : Type} {p : Unit → Rule β} {word : String}
    (hword : ∀ x ∈ word.toList, isNameChar x = true)
    (hrest : ∀ x ∈ rest.head?, isNameChar x = false) (hne : name ≠ word)
    (hchars : ∀ x ∈ name.toList, isNameChar x = true)
    (hp : ∀ x rest place, isNameChar x = true → (p ()).Refuses ⟨x :: rest, place⟩) :
    (exactly word.toList >>= p).Refuses ⟨name.toList ++ rest, place⟩ := by
  by_cases hprefix : word.toList <+: name.toList
  · obtain ⟨more, hmore⟩ := hprefix
    cases more with
    | nil =>
      rw [List.append_nil, String.toList_inj] at hmore
      exact absurd hmore.symm hne
    | cons x more =>
      rw [← hmore, List.append_assoc]
      exact (reads_exactly word.toList _ place).bind_refuses
        (hp x _ _ (hchars x (by simp [← hmore])))
  · exact (refuses_exactly (mt (prefix_of_prefix_append hword hrest) hprefix)).bind

namespace IsFieldName

variable (h : IsFieldName name) (hrest : EndsName rest) (place : ℕ)
include h

lemma exists_cons : ∃ x cs, name.toList = x :: cs ∧ isNameChar x = true := by
  obtain ⟨x, cs, hname⟩ := List.exists_cons_of_ne_nil h.ne_nil
  exact ⟨x, cs, hname, h.chars x (by simp [hname])⟩

/-- The first character of a name is none that is not for names. -/
lemma head_ne (hx : isNameChar x = false) : ∀ y ∈ (name.toList ++ rest).head?, y ≠ x := by
  obtain ⟨z, cs, hname, hz⟩ := h.exists_cons
  intro y hy
  rw [hname] at hy
  obtain rfl : z = y := Option.some.inj hy
  exact ne_of_isNameChar hz hx

lemma refuses_exactly (hx : isNameChar x = false) (word : List Char) :
    (exactly (x :: word)).Refuses ⟨name.toList ++ rest, place⟩ :=
  refuses_exactly_cons (h.head_ne hx) word

include hrest

lemma reads_ident : ident.Reads ⟨name.toList ++ rest, place⟩ name
    ⟨rest, place + name.toList.length⟩ := by
  refine Reads.construct ((reads_some1 h.ne_nil h.chars hrest.not_isNameChar place).bind ?_)
  rw [String.ofList_toList]
  exact reads_pure _ _

lemma reads_item : item.Reads ⟨name.toList ++ rest, place⟩ [.field name]
    ⟨rest, place + name.toList.length⟩ := by
  refine (reads_some1 h.ne_nil h.chars hrest.not_isNameChar place).construct.orElse.bind ?_
  rw [if_neg (by rw [String.toList_inj]; exact h.ne_this), String.ofList_toList]
  exact reads_pure _ _

lemma reads_path : path.Reads ⟨name.toList ++ rest, place⟩ ⟨[.field name], name⟩
    ⟨rest, place + name.toList.length⟩ := by
  have hthis : (exactly "this".toList >>= fun _ => separator >>= fun _ =>
      (Pure.pure () : Rule Unit)).Refuses ⟨name.toList ++ rest, place⟩ := by
    refine refuses_word (List.all_eq_true.mp (by decide)) hrest.not_isNameChar h.ne_this h.chars
      fun x rest place hx => ?_
    refine (refuses_char ?_).bind
    intro y hy
    obtain rfl : x = y := Option.some.inj hy
    simp [ne_of_isNameChar hx (show isNameChar '.' = false by decide),
      ne_of_isNameChar hx (show isNameChar '/' = false by decide)]
  refine Reads.construct ((reads_cursor _).bind ?_)
  refine (hthis.orElse (h.refuses_exactly place (by decide) ['/'])).optional.bind ?_
  refine (h.refuses_exactly place (by decide) "root".toList).construct.bind.optional.bind ?_
  refine (h.refuses_exactly place (by decide) []).construct.optional.bind ?_
  refine (h.refuses_exactly place (by decide) ['.']).construct.bind.many.bind ?_
  refine (h.reads_item hrest place).bind ?_
  refine (hrest.refuses_separator _).bind.many.bind ?_
  refine (reads_cursor _).bind ?_
  simpa [between] using reads_pure (⟨[.field name], name⟩ : Path) _

end IsFieldName

/-! What stands in a tag. -/

variable {before after inside tail : List Char} {role : Role} {inner : Rule Role}
  {opening closing : String}

lemma endsName_of_blank (hafter : ∀ x ∈ after, isSpace x = true)
    (htail : tail.head? = some '\x7d') : EndsName (after ++ tail) := by
  intro x hx
  cases after with
  | nil => exact .inr (Option.some.inj (htail.symm.trans hx)).symm
  | cons y after =>
    obtain rfl : y = x := Option.some.inj hx
    exact .inl (hafter y List.mem_cons_self)

/-- A name alone is a path to a field. -/
lemma IsFieldName.reads_valueCall (h : IsFieldName name) (hafter : ∀ x ∈ after, isSpace x = true)
    (htail : tail.head? = some '\x7d') (place n : ℕ) :
    (valueCall n).Reads ⟨name.toList ++ (after ++ tail), place⟩
      ⟨.path ⟨[.field name], name⟩, [], [], none⟩ ⟨after ++ tail, place + name.toList.length⟩ := by
  have hends := endsName_of_blank hafter htail
  have hclosing : Closes ⟨tail, place + name.toList.length + after.length⟩ := htail
  -- there are no arguments, so it is no call
  have hargs : (args n).Reads ⟨after ++ tail, place + name.toList.length⟩ [] _ :=
    ((reads_spaces hafter hclosing.ends.not_isSpace _).bind_refuses (hclosing.refuses_arg n)).many
  have hnone : (some1Args (args n)).Refuses ⟨after ++ tail, place + name.toList.length⟩ :=
    hargs.bind_refuses (refuses_refuse _)
  have hnested : (nested n).Refuses ⟨name.toList ++ (after ++ tail), place⟩ := by
    cases n with
    | zero => exact refuses_refuse _
    | succ n => exact (h.refuses_exactly place (by decide) []).bind.construct
  refine ((h.reads_ident hends place).bind_refuses hnone.bind).orElse_reads ?_
  exact hnested.bind.orElse_reads ((h.reads_path hends place).bind (reads_pure _ _))

/-- The text goes on with something else than a blank or a tilde. -/
def Plain (cs : List Char) : Prop := ∀ x ∈ cs.head?, isSpace x = false ∧ x ≠ '~'

lemma reads_tilde (hcs : ∀ x ∈ cs, isSpace x = true) (hrest : Plain rest) (place : ℕ) :
    tilde.Reads ⟨cs ++ rest, place⟩ false ⟨rest, place + cs.length⟩ := by
  have hspace : ∀ x ∈ rest.head?, isSpace x = false := fun x hx => (hrest x hx).1
  refine (reads_spaces hcs hspace place).bind ?_
  refine (refuses_exactly_cons (fun x hx => (hrest x hx).2) []).construct.optional.bind ?_
  exact (reads_spaces_nil hspace).bind (reads_pure _ _)

/-- A tag that carries no tilde is read if what stands in it is. -/
lemma reads_tag (hbefore : ∀ x ∈ before, isSpace x = true) (hafter : ∀ x ∈ after, isSpace x = true)
    (hinside : Plain (inside ++ (after ++ (closing.toList ++ rest))))
    (hclosing : Plain (closing.toList ++ rest))
    (hinner : ∀ place, inner.Reads ⟨inside ++ (after ++ (closing.toList ++ rest)), place⟩ role
      ⟨after ++ (closing.toList ++ rest), place + inside.length⟩) (place : ℕ) :
    let stop := place + opening.toList.length + before.length + inside.length + after.length +
      closing.toList.length
    (tag opening closing inner).Reads
      ⟨opening.toList ++ (before ++ (inside ++ (after ++ (closing.toList ++ rest)))), place⟩
      ⟨place, stop, role, false, false⟩ ⟨rest, stop⟩ := by
  refine (reads_cursor _).bind ?_
  refine (reads_exactly opening.toList _ place).bind ?_
  refine (reads_tilde hbefore hinside _).bind ?_
  refine (hinner _).bind ?_
  refine (reads_tilde hafter hclosing _).bind ?_
  refine (reads_exactly closing.toList rest _).bind ?_
  exact (reads_cursor _).bind (reads_pure _ _)

/-- A tag is not read if what stands in it is not. -/
lemma refuses_tag (hbefore : ∀ x ∈ before, isSpace x = true) (hrest : Plain rest)
    (hinner : ∀ place, inner.Refuses ⟨rest, place⟩) (place : ℕ) :
    (tag opening closing inner).Refuses ⟨opening.toList ++ (before ++ rest), place⟩ := by
  refine (reads_cursor _).bind_refuses ?_
  refine (reads_exactly opening.toList _ place).bind_refuses ?_
  refine (reads_tilde hbefore hrest _).bind_refuses ?_
  exact (hinner _).bind

lemma Ends.plain (h : Ends ⟨rest, place⟩) : Plain rest := fun x hx =>
  ⟨h.not_isSpace x hx, h.ne (by decide) x hx⟩

lemma IsFieldName.plain (h : IsFieldName name) (rest : List Char) :
    Plain (name.toList ++ rest) := by
  obtain ⟨x, cs, hname, hx⟩ := h.exists_cons
  intro y hy
  rw [hname] at hy
  obtain rfl : x = y := Option.some.inj hy
  exact ⟨isSpace_eq_false_of_isNameChar hx, ne_of_isNameChar hx (by decide)⟩

lemma IsFieldName.refuses_elseWord (h : IsFieldName name) (hrest : EndsName rest) (place : ℕ) :
    elseWord.Refuses ⟨name.toList ++ rest, place⟩ := by
  refine ((refuses_word (List.all_eq_true.mp (by decide)) hrest.not_isNameChar h.ne_else h.chars
    ?_).orElse (h.refuses_exactly place (by decide) [])).construct
  exact fun x rest place hx => (reads_char hx).absent

/-- What is no alternative of a block is not read as one. -/
lemma refuses_else (hbefore : ∀ x ∈ before, isSpace x = true) (hrest : Plain rest)
    (h : ∀ place, elseWord.Refuses ⟨rest, place⟩) (n place : ℕ) :
    (elseTag <|> elseChainTag n).Refuses ⟨"\x7b\x7b".toList ++ (before ++ rest), place⟩ :=
  (refuses_tag hbefore hrest (fun place => (h place).bind) place).construct.orElse
    (refuses_tag hbefore hrest (fun place => (h place).bind) place).construct

namespace Hole

lemma length_text (h : Hole) : h.text.length =
    h.braces.opening.length + h.before.length + h.name.toList.length + h.after.length +
      h.braces.closing.length := by
  simp only [text, List.length_append]

/-- A tag is read if the name alone stands in it. -/
lemma reads_named (h : Hole) {rest : List Char} {opening closing : String}
    (hclosing : Closes ⟨closing.toList ++ rest, 0⟩) (n place : ℕ) :
    let stop := place + opening.toList.length + h.before.length + h.name.toList.length +
      h.after.length + closing.toList.length
    (Grammar.tag opening closing do return .value (← valueCall n)).Reads
      ⟨opening.toList ++ (h.before ++ (h.name.toList ++ (h.after ++ (closing.toList ++ rest)))),
        place⟩
      ⟨place, stop, .value h.call, false, false⟩ ⟨rest, stop⟩ :=
  reads_tag h.before_blank h.after_blank (h.isFieldName.plain _) hclosing.ends.plain (fun place =>
    (h.isFieldName.reads_valueCall h.after_blank hclosing place n).bind (reads_pure _ _)) place

/-- Between double braces stands the name. -/
lemma reads_two (h : Hole) (rest : List Char) (n place : ℕ) :
    let stop := place + 2 + h.before.length + h.name.toList.length + h.after.length + 2
    (valueTag n).Reads ⟨"\x7b\x7b".toList ++ (h.before ++ (h.name.toList ++ (h.after ++
      ("\x7d\x7d".toList ++ rest)))), place⟩ ⟨place, stop, .value h.call, false, false⟩
      ⟨rest, stop⟩ := by
  have hplain := h.isFieldName.plain (h.after ++ ("\x7d\x7d".toList ++ rest))
  have hends : EndsName (h.after ++ ("\x7d\x7d".toList ++ rest)) :=
    endsName_of_blank h.after_blank rfl
  have helse := refuses_else h.before_blank hplain
    (fun place => h.isFieldName.refuses_elseWord hends place) n place
  have hclosing : Closes ⟨"\x7d\x7d".toList ++ rest, 0⟩ := rfl
  exact Reads.orElse (Reads.construct (helse.absent.bind (h.reads_named hclosing n place)))

/-- What begins with double braces and another mark than a name is read in another way. -/
lemma refuses_two (hrest : Ends ⟨rest, 0⟩) (n place : ℕ) :
    (Rule.construct do
      Rule.absent (elseTag <|> elseChainTag n)
      Grammar.braces do return .value (← valueCall n)).Refuses
      ⟨"\x7b\x7b".toList ++ rest, place⟩ := by
  have helse := refuses_else (List.forall_mem_nil _) hrest.plain
    (fun place => Ends.refuses_elseWord (c := ⟨rest, place⟩) hrest) n place
  refine Refuses.construct (helse.absent.bind_refuses ?_)
  exact refuses_tag (List.forall_mem_nil _) hrest.plain
    (fun place => (Ends.refuses_valueCall (c := ⟨rest, place⟩) hrest n).bind) place

lemma reads_three (h : Hole) (rest : List Char) (n place : ℕ) :
    let stop := place + 3 + h.before.length + h.name.toList.length + h.after.length + 3
    (valueTag n).Reads ⟨"\x7b\x7b\x7b".toList ++ (h.before ++ (h.name.toList ++ (h.after ++
      ("\x7d\x7d\x7d".toList ++ rest)))), place⟩ ⟨place, stop, .value h.call, false, false⟩
      ⟨rest, stop⟩ := by
  have hthird : Ends ⟨'\x7b' :: (h.before ++ (h.name.toList ++ (h.after ++
      ("\x7d\x7d\x7d".toList ++ rest)))), 0⟩ := by
    rintro x ⟨⟩
    decide
  have hclosing : Closes ⟨"\x7d\x7d\x7d".toList ++ rest, 0⟩ := rfl
  exact (refuses_two hthird n place).orElse_reads
    (Reads.construct (Reads.orElse (h.reads_named hclosing n place)))

lemma reads_ampersand (h : Hole) (rest : List Char) (n place : ℕ) :
    let inside := '&' :: (h.before ++ h.name.toList)
    let stop := place + 2 + 0 + inside.length + h.after.length + 2
    (valueTag n).Reads ⟨"\x7b\x7b".toList ++ ([] ++ (inside ++ (h.after ++
      ("\x7d\x7d".toList ++ rest)))), place⟩ ⟨place, stop, .value h.call, false, false⟩
      ⟨rest, stop⟩ := by
  intro inside stop
  have hclosing : Ends ⟨"\x7d\x7d".toList ++ rest, 0⟩ := Closes.ends rfl
  have hmark : Ends ⟨inside ++ (h.after ++ ("\x7d\x7d".toList ++ rest)), 0⟩ := by
    rintro x ⟨⟩
    decide
  have hthree : (exactly "\x7b\x7b\x7b".toList).Refuses ⟨"\x7b\x7b".toList ++ ([] ++ (inside ++
      (h.after ++ ("\x7d\x7d".toList ++ rest)))), place⟩ :=
    refuses_exactly (by rintro ⟨tail, htail⟩; simp [inside] at htail)
  have hbrace : ∀ place, (sigil '\x7b').Refuses
      ⟨inside ++ (h.after ++ ("\x7d\x7d".toList ++ rest)), place⟩ := fun place =>
    (refuses_exactly_cons (by rintro x ⟨⟩; decide) []).bind
  refine (refuses_two hmark n place).orElse_reads (Reads.construct ?_)
  refine ((reads_cursor _).bind_refuses hthree.bind).orElse_reads ?_
  refine ((reads_cursor _).bind_refuses ((reads_exactly _ _ place).bind_refuses
    ((reads_tilde (List.forall_mem_nil _) hmark.plain _).bind_refuses
      (hbrace _).bind))).orElse_reads ?_
  refine reads_tag (List.forall_mem_nil _) h.after_blank hmark.plain hclosing.plain
    (fun place => ?_) place
  have hplain := h.isFieldName.plain (h.after ++ ("\x7d\x7d".toList ++ rest))
  have hinside : inside ++ (h.after ++ ("\x7d\x7d".toList ++ rest)) =
      ['&'] ++ (h.before ++ (h.name.toList ++ (h.after ++ ("\x7d\x7d".toList ++ rest)))) := by
    simp [inside]
  have hlength : place + inside.length = place + 1 + h.before.length + h.name.toList.length := by
    simp [inside]
    omega
  rw [hinside, hlength]
  refine ((reads_exactly ['&'] _ place).bind
    (reads_spaces h.before_blank (fun x hx => (hplain x hx).1) _)).bind ?_
  exact (h.isFieldName.reads_valueCall h.after_blank rfl _ n).bind (reads_pure _ _)

/-- A tag that prints a field is read to its end, whatever follows. -/
theorem reads_valueTag (h : Hole) (rest : List Char) (n place : ℕ) :
    (valueTag n).Reads ⟨h.text ++ rest, place⟩ (h.tag place) ⟨rest, place + h.text.length⟩ := by
  have hlength := h.length_text
  cases hb : h.braces with
  | two =>
    have hread := h.reads_two rest n place
    have hstop : place + h.text.length =
        place + 2 + h.before.length + h.name.toList.length + h.after.length + 2 := by
      simp [hlength, hb, Braces.opening, Braces.closing]
      omega
    rw [tag, hstop]
    simpa [text, hb, Braces.opening, Braces.closing] using hread
  | three =>
    have hread := h.reads_three rest n place
    have hstop : place + h.text.length =
        place + 3 + h.before.length + h.name.toList.length + h.after.length + 3 := by
      simp [hlength, hb, Braces.opening, Braces.closing]
      omega
    rw [tag, hstop]
    simpa [text, hb, Braces.opening, Braces.closing] using hread
  | ampersand =>
    have hread := h.reads_ampersand rest n place
    have hstop : place + h.text.length = place + 2 + 0 +
        ('&' :: (h.before ++ h.name.toList)).length + h.after.length + 2 := by
      simp [hlength, hb, Braces.opening, Braces.closing]
      omega
    rw [tag, hstop]
    simpa [text, hb, Braces.opening, Braces.closing] using hread

end Hole

end CompiledViews.Template
