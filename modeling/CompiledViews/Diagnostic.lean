import CompiledViews.Json.Writer

/-! Diagnostics about templates and generated code. -/

namespace CompiledViews

inductive Severity where
  | info
  | warning
  | error
  deriving Repr, DecidableEq

namespace Severity

def text : Severity → String
  | .info => "info"
  | .warning => "warning"
  | .error => "error"

def ofText? : String → Option Severity
  | "info" => some .info
  | "warning" => some .warning
  | "error" => some .error
  | _ => none

def rank : Severity → Nat
  | .info => 0
  | .warning => 1
  | .error => 2

def max (a b : Severity) : Severity := if a.rank ≤ b.rank then b else a

end Severity

/-- A line, and a column where one is known; both count from one. -/
structure Place where
  line : Nat
  column : Option Nat
  deriving Repr, DecidableEq

structure Diagnostic where
  severity : Severity
  code : String
  message : String
  place : Option Place := none
  deriving Repr, DecidableEq

namespace Diagnostic

/-- The body of a template cannot be read. -/
def unreadableBody : String := "STC0001"

/-- The bytes of a template are no text. -/
def undecodable : String := "STC0002"

/-- The source of a template broke while it was read. -/
def brokenSource : String := "STC0003"

def unknownDirective : String := "STC0010"

def badDirective : String := "STC0011"

def repeatedInherits : String := "STC0012"

def badHeader : String := "STC0100"

def otherModule : String := "STC0101"

def unresolvedImport : String := "STC0246"

/-- An error without a place. -/
def error (code message : String) : Diagnostic := ⟨.error, code, message, none⟩

/-- An error at the start of a line. -/
def errorAtLine (code message : String) (line : Nat) : Diagnostic :=
  ⟨.error, code, message, some ⟨line, some 1⟩⟩

def isError (d : Diagnostic) : Bool := d.severity = .error

/-- The diagnostic in one line. -/
def text (d : Diagnostic) : String :=
  let place := match d.place with
    | none => ""
    | some ⟨line, none⟩ => s!" {line}"
    | some ⟨line, some column⟩ => s!" {line}:{column}"
  s!"{d.severity.text}[{d.code}]{place}: {d.message}"

def toJson (d : Diagnostic) : Json :=
  let place := match d.place with
    | none => []
    | some p =>
      ("line", Json.num (.int p.line)) ::
        (p.column.map fun c => ("column", Json.num (.int c))).toList
  .object <| [("severity", .str d.severity.text), ("code", .str d.code),
    ("message", .str d.message)] ++ place

/-- The texts of some diagnostics, a line for each. -/
def listText (ds : List Diagnostic) : String := "\n".intercalate (ds.map text)

def hasErrors (ds : List Diagnostic) : Bool := ds.any isError

def errorCount (ds : List Diagnostic) : Nat := ds.countP isError

def find? (ds : List Diagnostic) (code : String) : Option Diagnostic := ds.find? (·.code = code)

/-- The highest severity among some diagnostics. -/
def highest? : List Diagnostic → Option Severity
  | [] => none
  | d :: ds => some (ds.foldl (fun s d => s.max d.severity) d.severity)

end Diagnostic

example : (Diagnostic.errorAtLine "STC0010" "unknown directive '@x'" 2).text =
    "error[STC0010] 2:1: unknown directive '@x'" := by decide +kernel

end CompiledViews
