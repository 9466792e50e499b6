import CompiledViews.Template.Grammar
import CompiledViews.Template.Layout
import CompiledViews.Text.Quoted

/-! Templates as trees. A block holds what stands between its tags; of a chain of alternatives, each
is the inverse of the one before it. -/

namespace CompiledViews.Template

/-- Why a text is no template. -/
inductive Fault where
  | unreadable (position : Position)
  | badArgument (spelling : String)
  | misclosedBlock (position : Position) (opened closed : String)
  | misclosedDecorator (position : Position) (opened closed : String)
  deriving Repr, DecidableEq

/-- Where the fault is, if it has a place. -/
def Fault.position? : Fault → Option Position
  | .unreadable p | .misclosedBlock p _ _ | .misclosedDecorator p _ _ => some p
  | .badArgument _ => none

def Fault.message : Fault → String
  | .unreadable _ => "invalid handlebars syntax"
  | .badArgument spelling => "invalid parameter " ++ Text.quote spelling
  | .misclosedBlock _ opened closed =>
    "helper " ++ Text.quote opened ++ " was opened, but " ++ Text.quote closed ++ " is closing"
  | .misclosedDecorator _ opened closed =>
    "decorator " ++ Text.quote opened ++ " was opened, but " ++ Text.quote closed ++ " is closing"

mutual

/-- The first literal that is no JSON value. -/
def Expr.badLiteral? : Expr → Option String
  | .unreadable spelling => some spelling
  | .call name args named =>
    name.badLiteral? <|> badLiteralIn? args <|> badLiteralAmong? named
  | _ => none

def badLiteralIn? : List Expr → Option String
  | [] => none
  | e :: es => e.badLiteral? <|> badLiteralIn? es

def badLiteralAmong? : List (String × Expr) → Option String
  | [] => none
  | (_, e) :: es => e.badLiteral? <|> badLiteralAmong? es

end

def Call.badLiteral? (c : Call) : Option String :=
  c.name.badLiteral? <|> badLiteralIn? c.args <|> badLiteralAmong? c.named

def Role.call? : Role → Option Call
  | .value c | .openBlock c | .openRaw c | .decorator c | .openDecorator c | .includePartial c
  | .openPartial c => some c
  | .elseBlock c => c
  | _ => none

/-- How an expression is spelled when it stands as a name. -/
def Expr.spelling? : Expr → Option String
  | .word name => some name
  | .path p => some p.spelling
  | _ => none

/-- A block whose closing tag is still to come. `outer` are the nodes before it, last first. -/
inductive Pending where
  | block (position : Position) (call : Call) (chain : List (Call × List Node))
      (body : Option (List Node)) (outer : List Node)
  | decorator (position : Position) (call : Call) (outer : List Node)
  | includePartial (position : Position) (call : Call) (outer : List Node)

/-- Joins a chain of alternatives, the last one first. -/
def joinChain (position : Position) :
    List (Call × List Node) → Call → List Node → Option (List Node) → Node
  | [], call, body, inverse => .block (some position) call body inverse
  | (call', body') :: chain, call, body, inverse =>
    joinChain position chain call' body' (some [.block none call body inverse])

/-- The node of a block, once the nodes up to its closing tag are known. -/
def closeBlock (position : Position) (call : Call) (chain : List (Call × List Node)) :
    Option (List Node) → List Node → Node
  | none, nodes => joinChain position chain call nodes none
  | some body, nodes => joinChain position chain call body (some nodes)

/-- The blanks right before a place. -/
def marginBefore (cs : List Char) (n : Nat) : Option String :=
  let margin := (cs.take n).reverse.takeWhile Layout.isMargin
  if margin.isEmpty then none else some (String.ofList margin.reverse)

/-- The nodes of the block that is open, last first, and the blocks around it, innermost first. -/
structure Growth where
  nodes : List Node := []
  pending : List Pending := []

/-- Adds a tag. The grammar admits no closing tag without an opening one, so the last case leaves
things as they are. -/
def Growth.addTag (g : Growth) (cs : List Char) (t : Tag) : Except Fault Growth :=
  let position := Position.at cs t.start
  match t.role, g.pending with
  | .value c, _ => .ok { g with nodes := .value position c :: g.nodes }
  | .comment, _ => .ok g
  | .decorator c, _ => .ok { g with nodes := .decorator position c none :: g.nodes }
  | .includePartial c, _ =>
    let indent := if t.trimsBefore then none else marginBefore cs t.start
    .ok { g with nodes := .includePartial position c none indent :: g.nodes }
  | .openBlock c, _ | .openRaw c, _ =>
    .ok ⟨[], .block position c [] none g.nodes :: g.pending⟩
  | .openDecorator c, _ => .ok ⟨[], .decorator position c g.nodes :: g.pending⟩
  | .openPartial c, _ => .ok ⟨[], .includePartial position c g.nodes :: g.pending⟩
  | .elseBlock none, .block p c chain _ outer :: rest =>
    .ok ⟨[], .block p c chain (some g.nodes.reverse) outer :: rest⟩
  | .elseBlock (some c'), .block p c chain _ outer :: rest =>
    .ok ⟨[], .block p c' ((c, g.nodes.reverse) :: chain) none outer :: rest⟩
  | .closeBlock name, .block p c chain body outer :: rest
  | .closeRaw name, .block p c chain body outer :: rest =>
    let first := ((chain.getLast?.map (·.1)).getD c).name
    if first.spelling? = some name then
      .ok ⟨closeBlock p c chain body g.nodes.reverse :: outer, rest⟩
    else .error (.misclosedBlock position (first.spelling?.getD "") name)
  | .closeDecorator name, .decorator p c outer :: rest =>
    if c.name.spelling? = some name then
      .ok ⟨.decorator p c (some g.nodes.reverse) :: outer, rest⟩
    else .error (.misclosedDecorator position (c.name.spelling?.getD "") name)
  | .closePartial name, .includePartial p c outer :: rest =>
    if c.name.spelling? = some name then
      .ok ⟨.includePartial p c (some g.nodes.reverse) none :: outer, rest⟩
    else .error (.misclosedDecorator position (c.name.spelling?.getD "") name)
  | _, _ => .ok g

def Growth.add (cs : List Char) (g : Growth) : Segment → Except Fault Growth
  | .text s => .ok { g with nodes := .text (String.ofList s) :: g.nodes }
  | .tag t =>
    match t.role.call?.bind Call.badLiteral? with
    | some spelling => .error (.badArgument spelling)
    | none => g.addTag cs t

/-- The tree of a template. -/
def parse (s : String) : Except Fault (List Node) := do
  let cs := s.toList
  match Grammar.read cs with
  | .error place => throw (.unreadable (Position.at cs place))
  | .ok tags => return (← (layout cs tags).foldlM (Growth.add cs) { }).nodes.reverse

end CompiledViews.Template
