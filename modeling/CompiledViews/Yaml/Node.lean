import CompiledViews.Yaml.Token

/-!
YAML documents as trees. Where a document breaks off its tree holds a cut, after which nothing
follows; what stands before the cut can still be used.
-/

namespace CompiledViews.Yaml

/-- A part of a document, with the line of its start. A cut has the line at which reading
stopped. -/
inductive Node where
  | scalar (line : Nat) (text : String) (style : Style) (tag : Option String)
  | seq (line : Nat) (items : List Node)
  | map (line : Nat) (entries : List (Node × Node))
  | cut (line : Nat)
  deriving Repr, Inhabited

namespace Node

/-- The line of the start of a node. -/
def line : Node → Nat
  | .scalar n _ _ _ | .seq n _ | .map n _ | .cut n => n

mutual

/-- The line of the cut in a node, if there is one. -/
def cut? : Node → Option Nat
  | .cut n => some n
  | .scalar _ _ _ _ => none
  | .seq _ items => cutIn? items
  | .map _ entries => cutAmong? entries

def cutIn? : List Node → Option Nat
  | [] => none
  | n :: ns => n.cut? <|> cutIn? ns

def cutAmong? : List (Node × Node) → Option Nat
  | [] => none
  | (k, v) :: es => k.cut? <|> v.cut? <|> cutAmong? es

end

end Node

/-- What is still to be read, with what has been named so far. -/
structure Reading where
  tokens : List Token
  anchors : List (String × Node) := []
  handles : List (String × String) := []

namespace Reading

/-- The token ahead. Behind the last token there is nothing, as at the place of a broken one. -/
def ahead (r : Reading) : Token := r.tokens.head?.getD ⟨.broken, 0, 0⟩

def sees (r : Reading) (k : Token.Kind) : Bool := r.ahead.kind = k

def skip (r : Reading) : Reading := { r with tokens := r.tokens.drop 1 }

def isBroken (r : Reading) : Bool := r.sees .broken

end Reading

/-- A node, and what follows it unless it breaks off. -/
abbrev Parsed := Node × Option Reading

/-- A scalar that is not there. -/
def emptyScalar (line : Nat) : Node := .scalar line "" .plain none

/-- The text of a tag. -/
def expandTag (handles : List (String × String)) (handle suffix : String) : Option String :=
  if handle.isEmpty then some suffix
  else (handles.find? (·.1 = handle)).map fun h => h.2 ++ suffix

/-- The anchor and the tag before a node, in either order. -/
def readProperties (r : Reading) : Option String × Option (String × String) × Reading :=
  match r.ahead.kind with
  | .anchor name =>
    let r := r.skip
    match r.ahead.kind with
    | .tag handle suffix => (some name, some (handle, suffix), r.skip)
    | _ => (some name, none, r)
  | .tag handle suffix =>
    let r := r.skip
    match r.ahead.kind with
    | .anchor name => (some name, some (handle, suffix), r.skip)
    | _ => (none, some (handle, suffix), r)
  | _ => (none, none, r)

/-- Keeps a node under the name of its anchor. -/
def keep (anchor : Option String) : Parsed → Parsed
  | (n, some r) =>
    (n, some (match anchor with
      | some name => { r with anchors := (name, n) :: r.anchors }
      | none => r))
  | p => p

def pushItem (n : Node) : List Node × Option Reading → List Node × Option Reading
  | (ns, r) => (n :: ns, r)

def pushEntry (k v : Node) :
    List (Node × Node) × Option Reading → List (Node × Node) × Option Reading
  | (es, r) => ((k, v) :: es, r)

mutual

/-- Reads a node. In a block it may be a block; as the value of a key it may be a list that is not
indented. -/
def readNode : Nat → Reading → (block listed : Bool) → Parsed
  | 0, r, _, _ => (.cut r.ahead.line, none)
  | fuel + 1, r, block, listed =>
    let start := r.ahead.line
    match r.ahead.kind with
    | .alias name =>
      match r.anchors.find? (·.1 = name) with
      | some (_, n) => (n, some r.skip)
      | none => (.cut start, none)
    | _ =>
      let (anchor, tag, r) := readProperties r
      if r.isBroken then (.cut r.ahead.line, none)
      else match tag.map fun t => expandTag r.handles t.1 t.2 with
        | some none => (.cut start, none)
        | tag =>
          let tag := tag.join
          let collected (p : List Node × Option Reading) : Parsed := (.seq start p.1, p.2)
          let mapped (p : List (Node × Node) × Option Reading) : Parsed := (.map start p.1, p.2)
          keep anchor <| match r.ahead.kind with
            | .scalar text style => (.scalar start text style tag, some r.skip)
            | .flowSeqStart => collected (readFlowSeq fuel r.skip true)
            | .flowMapStart => mapped (readFlowMap fuel r.skip true)
            | .blockEntry =>
              if listed then collected (readListed fuel r)
              else if anchor.isSome || tag.isSome then (.scalar start "" .plain tag, some r)
              else (.cut r.ahead.line, none)
            | .blockSeqStart =>
              if block then collected (readBlockSeq fuel r.skip)
              else if anchor.isSome || tag.isSome then (.scalar start "" .plain tag, some r)
              else (.cut r.ahead.line, none)
            | .blockMapStart =>
              if block then mapped (readBlockMap fuel r.skip)
              else if anchor.isSome || tag.isSome then (.scalar start "" .plain tag, some r)
              else (.cut r.ahead.line, none)
            | _ =>
              if anchor.isSome || tag.isSome then (.scalar start "" .plain tag, some r)
              else (.cut r.ahead.line, none)

/-- Reads a node unless one of the given tokens is ahead, which stands for an empty one. -/
def readUnless : Nat → Reading → List Token.Kind → Nat → (block listed : Bool) → Parsed
  | 0, r, _, _, _, _ => (.cut r.ahead.line, none)
  | fuel + 1, r, kinds, line, block, listed =>
    if r.isBroken then (.cut r.ahead.line, none)
    else if kinds.contains r.ahead.kind then (emptyScalar line, some r)
    else readNode fuel r block listed

/-- Reads the items of a block. -/
def readBlockSeq : Nat → Reading → List Node × Option Reading
  | 0, r => ([.cut r.ahead.line], none)
  | fuel + 1, r =>
    if r.sees .blockEnd then ([], some r.skip)
    else if r.sees .blockEntry then
      match readUnless fuel r.skip [.blockEntry, .blockEnd] r.ahead.stop true false with
      | (n, none) => ([n], none)
      | (n, some r) => pushItem n (readBlockSeq fuel r)
    else ([.cut r.ahead.line], none)

/-- Reads the items of a list that is not indented. -/
def readListed : Nat → Reading → List Node × Option Reading
  | 0, r => ([.cut r.ahead.line], none)
  | fuel + 1, r =>
    if r.sees .blockEntry then
      match readUnless fuel r.skip [.blockEntry, .key, .value, .blockEnd] r.ahead.stop true false with
      | (n, none) => ([n], none)
      | (n, some r) => pushItem n (readListed fuel r)
    else if r.isBroken then ([.cut r.ahead.line], none)
    else ([], some r)

/-- Reads the entries of a block. -/
def readBlockMap : Nat → Reading → List (Node × Node) × Option Reading
  | 0, r => ([(.cut r.ahead.line, .cut r.ahead.line)], none)
  | fuel + 1, r =>
    let ends : List Token.Kind := [.key, .value, .blockEnd]
    let withValue (k : Node) (r : Reading) : List (Node × Node) × Option Reading :=
      let (v, rest) :=
        if r.sees .value then readUnless fuel r.skip ends r.ahead.stop true true
        else if r.isBroken then (.cut r.ahead.line, none)
        else (emptyScalar r.ahead.line, some r)
      match rest with
      | none => ([(k, v)], none)
      | some r => pushEntry k v (readBlockMap fuel r)
    if r.sees .blockEnd then ([], some r.skip)
    else if r.sees .key then
      match readUnless fuel r.skip ends r.ahead.stop true true with
      | (k, none) => ([(k, .cut k.line)], none)
      | (k, some r) => withValue k r
    else if r.sees .value then withValue (emptyScalar r.ahead.line) r
    else ([(.cut r.ahead.line, .cut r.ahead.line)], none)

/-- Reads the items between brackets. An item may be an entry by itself. -/
def readFlowSeq : Nat → Reading → (first : Bool) → List Node × Option Reading
  | 0, r, _ => ([.cut r.ahead.line], none)
  | fuel + 1, r, first =>
    if r.sees .flowSeqEnd then ([], some r.skip)
    else if !first && !r.sees .flowEntry then ([.cut r.ahead.line], none)
    else
      let r := if first then r else r.skip
      if r.isBroken then ([.cut r.ahead.line], none)
      else if r.sees .flowSeqEnd then ([], some r.skip)
      else if r.sees .key then
        let start := r.ahead.line
        let ends : List Token.Kind := [.flowEntry, .flowSeqEnd]
        match readUnless fuel r.skip (.value :: ends) r.ahead.stop false false with
        | (k, none) => ([.map start [(k, .cut k.line)]], none)
        | (k, some r) =>
          let (v, rest) :=
            if r.sees .value then readUnless fuel r.skip ends r.ahead.line false false
            else if r.isBroken then (.cut r.ahead.line, none)
            else (emptyScalar r.ahead.line, some r)
          match rest with
          | none => ([.map start [(k, v)]], none)
          | some r => pushItem (.map start [(k, v)]) (readFlowSeq fuel r false)
      else match readNode fuel r false false with
        | (n, none) => ([n], none)
        | (n, some r) => pushItem n (readFlowSeq fuel r false)

/-- Reads the entries between braces. -/
def readFlowMap : Nat → Reading → (first : Bool) → List (Node × Node) × Option Reading
  | 0, r, _ => ([(.cut r.ahead.line, .cut r.ahead.line)], none)
  | fuel + 1, r, first =>
    if r.sees .flowMapEnd then ([], some r.skip)
    else if !first && !r.sees .flowEntry then ([(.cut r.ahead.line, .cut r.ahead.line)], none)
    else
      let r := if first then r else r.skip
      let ends : List Token.Kind := [.flowEntry, .flowMapEnd]
      if r.isBroken then ([(.cut r.ahead.line, .cut r.ahead.line)], none)
      else if r.sees .flowMapEnd then ([], some r.skip)
      else if r.sees .key then
        match readUnless fuel r.skip (.value :: ends) r.skip.ahead.line false false with
        | (k, none) => ([(k, .cut k.line)], none)
        | (k, some r) =>
          let (v, rest) :=
            if r.sees .value then readUnless fuel r.skip ends r.skip.ahead.line false false
            else if r.isBroken then (.cut r.ahead.line, none)
            else (emptyScalar r.ahead.line, some r)
          match rest with
          | none => ([(k, v)], none)
          | some r => pushEntry k v (readFlowMap fuel r false)
      else match readNode fuel r false false with
        | (k, none) => ([(k, .cut k.line)], none)
        | (k, some r) =>
          if r.isBroken then ([(k, .cut r.ahead.line)], none)
          else pushEntry k (emptyScalar r.ahead.line) (readFlowMap fuel r false)

end

/-- What follows the first document of a text. -/
inductive Ending where
  | done
  | cut (line : Nat)
  | more
  deriving Repr, DecidableEq

/-- The first document of a text, and what follows it. -/
structure Document where
  root : Node
  ending : Ending

def defaultHandles : List (String × String) := [("!", "!"), ("!!", "tag:yaml.org,2002:")]

/-- Reads directives. At most one may name the version, which is 1.1 or 1.2, and each handle may be
given once. -/
def readDirectives (versioned : Bool) (given : List (String × String)) :
    List Token → Except Nat (List (String × String) × List Token)
  | ⟨.version major minor, line, _⟩ :: ts =>
    if versioned || major ≠ 1 || (minor ≠ 1 && minor ≠ 2) then .error line
    else readDirectives true given ts
  | ⟨.tagHandle handle expansion, line, _⟩ :: ts =>
    if given.any (·.1 = handle) then .error line
    else readDirectives versioned ((handle, expansion) :: given) ts
  | ts => .ok (given ++ defaultHandles, ts)

/-- What follows a document, once its root has been read. -/
def ending : Option Reading → Ending
  | none => .done
  | some r =>
    if r.isBroken then .cut r.ahead.line
    else match r.tokens.dropWhile (·.kind = .documentEnd) with
      | [⟨.textEnd, _, _⟩] => .done
      | _ => .more

/-- The first document of a text. A text without any is as an empty one. -/
def readDocument (text : List Char) : Document :=
  let tokens := (tokensOf text).drop (if (tokensOf text).head?.map (·.kind) = some .textStart then 1 else 0)
  let fuel := 4 * tokens.length + 4
  let finish (p : Parsed) : Document := ⟨p.1, ending p.2⟩
  let r : Reading := { tokens := tokens, handles := defaultHandles }
  match r.ahead.kind with
  | .broken => ⟨.cut r.ahead.line, .done⟩
  | .textEnd => ⟨emptyScalar 0, .done⟩
  | .version _ _ | .tagHandle _ _ | .documentStart =>
    match readDirectives false [] tokens with
    | .error line => ⟨.cut line, .done⟩
    | .ok (handles, rest) =>
      let r := { r with tokens := rest, handles := handles }
      if !r.sees .documentStart then ⟨.cut r.ahead.line, .done⟩
      else
        let r := r.skip
        match r.ahead.kind with
        | .version _ _ | .tagHandle _ _ | .documentStart | .documentEnd | .textEnd =>
          finish (emptyScalar r.ahead.line, some r)
        | .broken => ⟨.cut r.ahead.line, .done⟩
        | _ => finish (readNode fuel r true false)
  | _ => finish (readNode fuel r true false)

end CompiledViews.Yaml
