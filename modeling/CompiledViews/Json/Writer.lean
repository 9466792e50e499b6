import CompiledViews.Json.Basic
import CompiledViews.Decimal.Shortest

/-! Writing JSON without blanks between tokens. -/

namespace CompiledViews.Json

def hexChar (n : Nat) : Char := (Nat.digitChar n)

/-- A character inside a string: quotes, backslashes and control characters are escaped. -/
def escapeChar (c : Char) : List Char :=
  match c with
  | '"' => ['\\', '"']
  | '\\' => ['\\', '\\']
  | '\x08' => ['\\', 'b']
  | '\x0C' => ['\\', 'f']
  | '\n' => ['\\', 'n']
  | '\r' => ['\\', 'r']
  | '\t' => ['\\', 't']
  | c =>
    if c.toNat < 0x20 then ['\\', 'u', '0', '0', hexChar (c.toNat / 16), hexChar (c.toNat % 16)]
    else [c]

/-- A string with its quotes. -/
def writeString (s : String) : List Char := '"' :: s.toList.flatMap escapeChar ++ ['"']

def Number.text : Number → String
  | .int n => toString n
  | .float x => Decimal.ofFloat x

mutual

def write : Json → List Char
  | .null => "null".toList
  | .bool true => "true".toList
  | .bool false => "false".toList
  | .num n => n.text.toList
  | .str s => writeString s
  | .arr items => '[' :: writeItems items
  | .obj fields => '\x7b' :: writeFields fields

def writeItems : List Json → List Char
  | [] => [']']
  | [item] => write item ++ [']']
  | item :: items => write item ++ ',' :: writeItems items

def writeFields : List (String × Json) → List Char
  | [] => ['\x7d']
  | [(name, value)] => writeString name ++ ':' :: write value ++ ['\x7d']
  | (name, value) :: fields =>
    writeString name ++ ':' :: write value ++ ',' :: writeFields fields

end

/-- The JSON text of a value. -/
def text (j : Json) : String := String.ofList j.write

end CompiledViews.Json
