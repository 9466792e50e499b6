/-! Lines of a text, each kept with its line feed, so that the lines joined are the text. -/

namespace CompiledViews.Text

/-- The lines of a text in order; only the last may lack its line feed, and none is empty. -/
def linesList : List Char → List (List Char)
  | [] => []
  | c :: cs =>
    if c = '\n' then ['\n'] :: linesList cs
    else match linesList cs with
      | [] => [[c]]
      | line :: lines => (c :: line) :: lines

theorem linesList_flatten (cs : List Char) : (linesList cs).flatten = cs := by
  induction cs with
  | nil => rfl
  | cons c cs ih =>
    by_cases hc : c = '\n'
    · simp [linesList, hc, ih]
    · cases h : linesList cs with
      | nil => rw [h] at ih; simpa [linesList, hc, h] using ih
      | cons line lines => rw [h] at ih; simpa [linesList, hc, h] using ih

/-- The text of a line without the line feeds and carriage returns at its end. -/
def stripLineEnd (line : List Char) : List Char :=
  (line.reverse.dropWhile fun c => c = '\r' || c = '\n').reverse

example : linesList "a\r\n\nb".toList = ["a\r\n".toList, "\n".toList, "b".toList] := by decide

end CompiledViews.Text
