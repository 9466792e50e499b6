import CompiledViews.Code.Compilation
import CompiledViews.Json.Reader

/-! Images of modules: manifests written as JSON. -/

namespace CompiledViews

namespace Manifest

/-- The fields of a manifest in the order in which they are written. -/
def fields (m : Manifest) : List (String × Json) :=
  [("module", .str m.module), ("namespace", .str m.ns), ("inherits", .str m.inherits),
    ("imports", .arr (m.imports.map .str)), ("origin", .str m.origin.word), ("body", .str m.body)]

/-- The JSON text of a manifest. -/
def json (m : Manifest) : List Char := '\x7b' :: Json.writeFields m.fields

def strings? (j : Json) : Option (List String) := do (← j.items?).mapM Json.string?

/-- An origin is written as its word; a field of that name without a value says the same. -/
def origin? : Json → Option Origin
  | .str s => Origin.ofWord? s
  | .obj [(s, .null)] => Origin.ofWord? s
  | _ => none

/-- The manifest with the given values, in order. -/
def ofValues? (module ns inherits imports origin body : Json) : Option Manifest := do
  return {
    module := ← module.string?
    ns := ← ns.string?
    inherits := ← inherits.string?
    imports := ← strings? imports
    origin := ← origin? origin
    body := ← body.string? }

def fieldNames : List String := ["module", "namespace", "inherits", "imports", "origin", "body"]

/-- The manifest of a record. No field may be repeated, the imports may be left out, and other
fields are nobody's business. -/
def ofFields? (fields : List (String × Json)) : Option Manifest :=
  if fieldNames.any fun name => 1 < fields.countP (·.1 = name) then none
  else do
    let get := Json.field? fields
    ofValues? (← get "module") (← get "namespace") (← get "inherits")
      ((get "imports").getD (.arr [])) (← get "origin") (← get "body")

/-- Reads the JSON text of a manifest, which may also be an array of its six values. -/
def ofJson? (text : List Char) : Option Manifest :=
  match Json.Reader.readRecord text with
  | some fields => ofFields? fields
  | none =>
    match Json.Reader.read text with
    | some (.arr [module, ns, inherits, imports, origin, body]) =>
      ofValues? module ns inherits imports origin body
    | _ => none

end Manifest

/-- The bytes of a compiled module, with the name it was compiled under. -/
structure Image where
  module : String
  bytes : List UInt8
  deriving Repr, DecidableEq

/-- The image of a manifest. -/
def Manifest.image (m : Manifest) : Image := ⟨m.module, Text.Utf8.encode (String.ofList m.json)⟩

end CompiledViews
