import CompiledViews.Text.Utf8

/-! What a source of a template yields when it is opened. -/

namespace CompiledViews

/-- A text in memory, or a stream of bytes, which may break after them. -/
inductive Content where
  | text (s : String)
  | stream (bytes : List UInt8) (breaks : Option String)
  deriving Repr, DecidableEq

namespace Content

def isStream : Content → Bool
  | .text _ => false
  | .stream _ _ => true

/-- All bytes, or what broke the stream. -/
def bytes : Content → Except String (List UInt8)
  | .text s => .ok (Text.Utf8.encode s)
  | .stream bytes none => .ok bytes
  | .stream _ (some reason) => .error reason

end Content

end CompiledViews
