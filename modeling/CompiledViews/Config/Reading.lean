import CompiledViews.Config.Basic
import CompiledViews.Yaml.Node

/-!
Reading a configuration from a YAML document. What is left out takes its default, and what is not
known is passed over. A fault without a line of its own has the line of the mapping around it.
-/

namespace CompiledViews.Config

open CompiledViews.Yaml

/-- What a document lacks to be a configuration. -/
structure Fault where
  line : Option Nat := none
  invalidType : Option String := none

def Fault.within (line : Nat) (f : Fault) : Fault := { f with line := f.line.or (some line) }

/-- Nothing, as a mapping or a list without anything in it. -/
def isNothing : Node → Bool
  | .scalar _ text style _ => text.isEmpty && style = .plain
  | _ => false

def readText : Node → Except Fault String
  | .scalar _ text _ _ => .ok text
  | n => .error ⟨some n.line, none⟩

def nullTag : String := "tag:yaml.org,2002:null"

def boolTag : String := "tag:yaml.org,2002:bool"

def intTag : String := "tag:yaml.org,2002:int"

def isNull (text : String) : Bool := ["~", "null", "Null", "NULL"].contains text

/-- Reads a value that may be absent. -/
def readOption {α : Type} (read : Node → Except Fault α) (n : Node) : Except Fault (Option α) :=
  match n with
  | .scalar _ text .plain none =>
    if text.isEmpty || isNull text then .ok none else (read n).map some
  | .scalar _ text .plain (some tag) =>
    if tag ≠ nullTag then (read n).map some
    else if isNull text then .ok none
    else .error {}
  | n => (read n).map some

/-- The text of a scalar that is not quoted, or is a block with the given tag. -/
def literalText? (tag : String) : Node → Option String
  | .scalar _ text .plain _ => some text
  | .scalar _ text .literal (some t) => if t = tag then some text else none
  | _ => none

def bool? (s : String) : Option Bool :=
  if ["true", "True", "TRUE"].contains s then some true
  else if ["false", "False", "FALSE"].contains s then some false
  else none

def readBool (n : Node) : Except Fault Bool :=
  match (literalText? boolTag n).bind bool? with
  | some b => .ok b
  | none => .error ⟨some n.line, none⟩

def digitValue (c : Char) : Nat :=
  if c.isDigit then c.toNat - '0'.toNat else c.toLower.toNat - 'a'.toNat + 10

/-- The number that digits of a base spell, if it fits 64 bits. -/
def ofDigits? (base : Nat) (cs : List Char) : Option Nat :=
  if cs.isEmpty || !cs.all fun c => c.isAlphanum && digitValue c < base then none
  else
    let n := cs.foldl (fun n c => n * base + digitValue c) 0
    if n < Nat.pow 2 64 then some n else none

/-- A number in decimal without leading zeros, or after `0x`, `0o` or `0b` in another base. -/
def nat? (s : String) : Option Nat :=
  let cs := match s.toList with
    | '+' :: cs => cs
    | cs => cs
  match cs with
  | '0' :: 'x' :: rest => ofDigits? 16 rest
  | '0' :: 'o' :: rest => ofDigits? 8 rest
  | '0' :: 'b' :: rest => ofDigits? 2 rest
  | '0' :: _ :: _ => none
  | cs => ofDigits? 10 cs

def readNat (n : Node) : Except Fault Nat :=
  match (literalText? intTag n).bind nat? with
  | some k => .ok k
  | none => .error ⟨some n.line, none⟩

def readList {α : Type} (read : Node → Except Fault α) (n : Node) : Except Fault (List α) :=
  match n with
  | .seq line items => (items.mapM read).mapError (Fault.within line)
  | n => if isNothing n then .ok [] else .error ⟨some n.line, none⟩

/-- Takes in entries one after the other. -/
def foldEntries {α : Type} (step : α → String → Node → Except Fault α) (a : α) :
    List (Node × Node) → Except Fault α
  | [] => .ok a
  | (k, v) :: es => do
    let a ← step a (← readText k) v
    foldEntries step a es

/-- Reads a mapping. -/
def readMapping {α : Type} (start : α) (step : α → String → Node → Except Fault α) (n : Node) :
    Except Fault α :=
  match n with
  | .map line es => (foldEntries step start es).mapError (Fault.within line)
  | n => if isNothing n then .ok start else .error ⟨some n.line, none⟩

/-- Passes over a value. -/
def pass (n : Node) : Except Fault Unit :=
  match n.cut? with
  | some line => .error ⟨some line, none⟩
  | none => .ok ()

/-- Reads a record. A field that is known may not be repeated. -/
def readRecord {α : Type} (known : List String) (start : α)
    (step : α → String → Node → Except Fault α) (n : Node) : Except Fault α :=
  (readMapping (start, ([] : List String)) (fun (a, seen) name v => do
    if !known.contains name then
      pass v
      return (a, seen)
    else if seen.contains name then throw {}
    else return (← step a name v, name :: seen)) n).map (·.1)

def readType (n : Node) : Except Fault TypeName := do
  let text ← readText n
  match TypeName.ofText? text with
  | some t => return t
  | none => throw ⟨none, some (TypeName.invalidMessage text)⟩

def readTemplate (n : Node) : Except Fault InlineTemplate := do
  let (body, model) ← readRecord ["body", "model"] ((none, none) : Option String × Option TypeName)
    (fun (body, model) name v => do
      if name = "body" then return (some (← readText v), model)
      else return (body, ← readOption readType v)) n
  match body with
  | some body => return ⟨body, model⟩
  | none => throw ⟨some n.line, none⟩

def readGeneration : Node → Except Fault Generation :=
  readRecord ["namespace", "base_type", "imports"] {} fun g name v => do
    if name = "namespace" then return { g with ns := ← readText v }
    else if name = "base_type" then return { g with baseType := ← readText v }
    else return { g with imports := ← readList readText v }

def readTemplates : Node → Except Fault (Table InlineTemplate) :=
  readMapping {} fun ts name v => do return ts.insert name (← readTemplate v)

def readSources : Node → Except Fault Sources :=
  readRecord ["root", "pattern", "templates"] {} fun s name v => do
    if name = "root" then return { s with root := ← readText v }
    else if name = "pattern" then return { s with pattern := ← readText v }
    else return { s with templates := ← readTemplates v }

def readReferences : Node → Except Fault (List String) :=
  readRecord ["references"] ({} : Config).references fun _ _ v => readList readText v

def readWatching : Node → Except Fault Watching :=
  readRecord ["enabled", "coalesce_ms"] {} fun w name v => do
    if name = "enabled" then return { w with enabled := ← readBool v }
    else return { w with coalesceMs := ← readNat v }

def readLog : Node → Except Fault LogSettings :=
  readRecord ["level", "format", "file"] {} fun l name v => do
    if name = "level" then return { l with level := ← readOption readText v }
    else if name = "format" then return { l with format := ← readOption readText v }
    else return { l with file := ← readOption readText v }

def readConfig : Node → Except Fault Config :=
  readRecord ["generation", "sources", "compiler", "watch", "log"] {} fun c name v => do
    if name = "generation" then return { c with generation := ← readGeneration v }
    else if name = "sources" then return { c with sources := ← readSources v }
    else if name = "compiler" then return { c with references := ← readReferences v }
    else if name = "watch" then return { c with watch := ← readWatching v }
    else return { c with log := ← readLog v }

/-- The configuration that a YAML text of one document holds. -/
def ofYaml (text : String) : Except ConfigError Config :=
  let document := readDocument text.toList
  match readConfig document.root with
  | .error f => .error (.syntaxError (f.line.map (· + 1)) f.invalidType)
  | .ok c =>
    match document.ending with
    | .done => .ok c
    | .cut line => .error (.syntaxError (some (line + 1)) none)
    | .more => .error (.syntaxError none none)

end CompiledViews.Config
