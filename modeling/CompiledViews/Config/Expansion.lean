import CompiledViews.Config.Basic
import CompiledViews.Environment.Basic

/-!
References to variables in the text of a configuration. For each reference in turn, its value takes
the place of its spelling wherever that stands, also in values that were put in before.
-/

namespace CompiledViews.Config

/-- A reference as it is spelled, the name of the variable, and what to use without it. -/
structure Reference where
  spelling : List Char
  name : List Char
  default : Option (List Char)
  deriving Repr, DecidableEq

/-- The reference at the front of a text. -/
def referenceAt? : List Char → Option Reference
  | '$' :: '\x7b' :: cs =>
    let name := cs.takeWhile fun c => c ≠ '\x7d' && c ≠ ':'
    if name.isEmpty then none
    else match cs.drop name.length with
      | '\x7d' :: _ => some ⟨'$' :: '\x7b' :: name ++ ['\x7d'], name, none⟩
      | ':' :: '-' :: rest =>
        let default := rest.takeWhile (· ≠ '\x7d')
        if default.length = rest.length then none
        else some ⟨'$' :: '\x7b' :: name ++ ':' :: '-' :: default ++ ['\x7d'], name, some default⟩
      | _ => none
  | _ => none

/-- The references of a text from left to right, after `skip` characters; none overlap. -/
def referencesIn (skip : Nat) : List Char → List Reference
  | [] => []
  | c :: cs =>
    match skip with
    | n + 1 => referencesIn n cs
    | 0 =>
      match referenceAt? (c :: cs) with
      | some r => r :: referencesIn (r.spelling.length - 1) cs
      | none => referencesIn 0 cs

/-- Puts a text in the place of another wherever that stands, after `skip` characters. -/
def replaceAll (old new : List Char) (skip : Nat) : List Char → List Char
  | [] => []
  | c :: cs =>
    match skip with
    | n + 1 => replaceAll old new n cs
    | 0 =>
      if old.isPrefixOf (c :: cs) then new ++ replaceAll old new (old.length - 1) cs
      else c :: replaceAll old new 0 cs

/-- What a reference stands for. -/
def Reference.value? (env : Environment) (r : Reference) : Option (List Char) :=
  ((env.get? (String.ofList r.name)).map String.toList).or r.default

/-- Puts in the values of references. -/
def expandAll (env : Environment) (text : List Char) :
    List Reference → Except ConfigError (List Char)
  | [] => .ok text
  | r :: rs =>
    match r.value? env with
    | none => .error (.variableNotFound (String.ofList r.name))
    | some value => expandAll env (replaceAll r.spelling value 0 text) rs

/-- The text of a configuration with the values of variables. -/
def expand (env : Environment) (text : String) : Except ConfigError String :=
  (expandAll env text.toList (referencesIn 0 text.toList)).map String.ofList

end CompiledViews.Config
