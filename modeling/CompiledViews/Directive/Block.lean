import CompiledViews.Directive.Basic
import CompiledViews.Diagnostic
import CompiledViews.Text.Lines

/-!
The leading block of a template: the lines before its body, each of which is blank or in the shape
of a directive. Blank lines at its end belong to the body.
-/

namespace CompiledViews

/-- A template cut into what its directives say and its body. `offset` counts the lines before the
body. -/
structure Markup where
  inherits : Option String
  imports : List String
  body : List Char
  offset : Nat
  deriving Repr, DecidableEq

namespace Markup

def isBlankLine (line : List Char) : Bool := line.all Text.isBlank

def isLeading (line : List Char) : Bool :=
  isBlankLine line || (Directive.ofLine? line).isSome

/-- The number of lines in the leading block. -/
def blockLength (lines : List (List Char)) : Nat :=
  ((lines.takeWhile isLeading).reverse.dropWhile isBlankLine).length

/-- What the lines of a block say; blank lines say nothing. -/
def directives (block : List (List Char)) : List Directive :=
  block.filterMap fun line =>
    match Directive.ofLine? line with
    | some (.ok d) => some d
    | _ => none

def inherited? (ds : List Directive) : Option String :=
  ds.findSome? fun
    | .inherits type => some type
    | .uses _ => none

/-- The namespaces used, each where it first appears. -/
def imported (ds : List Directive) : List String :=
  (ds.filterMap fun
    | .uses ns => some ns
    | .inherits _ => none).eraseDups

def faultDiagnostic (line : Nat) (f : Directive.Fault) : Diagnostic :=
  match f with
  | .unknown _ => .errorAtLine Diagnostic.unknownDirective f.message line
  | f => .errorAtLine Diagnostic.badDirective f.message line

/-- What is wrong with the lines of a block, the first of which has the number `line`; `inherits`
says whether the type to inherit from is named before. -/
def faults (line : Nat) (inherits : Bool) : List (List Char) → List Diagnostic
  | [] => []
  | l :: ls =>
    match Directive.ofLine? l with
    | some (.ok (.inherits _)) =>
      if inherits then
        .errorAtLine Diagnostic.repeatedInherits "'@inherits' may only appear once" line ::
          faults (line + 1) true ls
      else faults (line + 1) true ls
    | some (.error f) => faultDiagnostic line f :: faults (line + 1) inherits ls
    | _ => faults (line + 1) inherits ls

/-- Cuts a template, unless its leading block has faults. -/
def ofText (text : List Char) : Except (List Diagnostic) Markup :=
  let lines := Text.linesList text
  let n := blockLength lines
  let block := lines.take n
  match faults 1 false block with
  | [] => .ok ⟨inherited? (directives block), imported (directives block),
      (lines.drop n).flatten, n⟩
  | ds => .error ds

end Markup

end CompiledViews
