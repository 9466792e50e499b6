import CompiledViews.Module.Image
import CompiledViews.Proofs.Json.Writing
import CompiledViews.Proofs.Text.Utf8

/-! An image holds the manifest that it was made from: all six fields are read back from their
JSON text, whatever characters they are made of. -/

namespace CompiledViews.Manifest

open Json.Reader

lemma readBack_fields (m : Manifest) (depth : Nat) : ∀ f ∈ m.fields, ReadBack (depth + 1) f.2 := by
  have himports : ReadBack (depth + 1) (.arr (m.imports.map .str)) := by
    refine readBack_arr ?_
    rw [List.forall_mem_map]
    exact fun ns _ => readBack_str depth ns
  simp [fields, readBack_str, himports]

lemma strings?_map_str (ss : List String) : strings? (.arr (ss.map .str)) = some ss := by
  have hmap : (ss.map Json.str).mapM Json.string? = some ss := by
    induction ss with
    | nil => rfl
    | cons s ss ih => simp [Json.string?, ih]
  simpa [strings?, Json.items?] using hmap

/-- Every field is there once, and holds the value that it was written with. -/
theorem ofFields?_fields (m : Manifest) : ofFields? m.fields = some m := by
  have honce : (fieldNames.any fun name => 1 < m.fields.countP (·.1 = name)) = false := by
    simp [fieldNames, fields, List.countP_cons]
  have horigin : origin? (.str m.origin.word) = some m.origin := Origin.ofWord?_word m.origin
  rw [ofFields?, honce]
  simp [fields, Json.field?, ofValues?, strings?_map_str, horigin, Json.string?]

theorem ofJson?_json (m : Manifest) : ofJson? m.json = some m := by
  have hread : readRecord m.json = some m.fields :=
    readRecord_writeFields (by simp [fields]) (m.readBack_fields _)
  rw [ofJson?, hread]
  exact m.ofFields?_fields

end CompiledViews.Manifest
