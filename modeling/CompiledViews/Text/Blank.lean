/-! Blank characters, those with the Unicode property White_Space, and trimming by them. -/

namespace CompiledViews.Text

/-- The 25 characters with the Unicode property White_Space. -/
def isBlank (c : Char) : Bool :=
  let n := c.toNat
  (9 ≤ n && n ≤ 13) || n == 0x20 || n == 0x85 || n == 0xA0 || n == 0x1680 ||
    (0x2000 ≤ n && n ≤ 0x200A) || n == 0x2028 || n == 0x2029 || n == 0x202F ||
    n == 0x205F || n == 0x3000

def trimStartList (cs : List Char) : List Char := cs.dropWhile isBlank

def trimEndList (cs : List Char) : List Char := (cs.reverse.dropWhile isBlank).reverse

def trimList (cs : List Char) : List Char := trimEndList (trimStartList cs)

/-- The text without the blanks at both ends. -/
def trim (s : String) : String := String.ofList (trimList s.toList)

example : trim "\u3000 a b\t\r\n" = "a b" := by decide
example : isBlank '\u200B' = false := by decide

end CompiledViews.Text
