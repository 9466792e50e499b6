import CompiledViews.Text.Marks

/-! Text between double quotes, with escapes for all that would not show. -/

namespace CompiledViews.Text

/-- A character between quotes. -/
def quoteChar (c : Char) : List Char :=
  match c with
  | '"' => ['\\', '"']
  | '\\' => ['\\', '\\']
  | '\n' => ['\\', 'n']
  | '\r' => ['\\', 'r']
  | '\t' => ['\\', 't']
  | '\x00' => ['\\', '0']
  | c =>
    if isExtending c || isHidden c then
      ['\\', 'u', '\x7b'] ++ Nat.toDigits 16 c.toNat ++ ['\x7d']
    else [c]

/-- The text between double quotes. -/
def quote (s : String) : String :=
  String.ofList ('"' :: s.toList.flatMap quoteChar ++ ['"'])

/-- A list of texts, each between quotes. -/
def quoteAll (ss : List String) : String := "[" ++ ", ".intercalate (ss.map quote) ++ "]"

end CompiledViews.Text
