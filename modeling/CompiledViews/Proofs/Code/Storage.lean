import CompiledViews.Proofs.Code.Translation
import CompiledViews.Proofs.Text.Decoding

/-! Templates in memory and templates in files. What is made of a template depends on where it is
kept only in the line that says so, as long as its bytes can be read and are a text. -/

namespace CompiledViews

open Text

variable {g : Generation} {module : String} {c c' : Content}

/-- The line of the header that says where a template is kept. -/
def Origin.line (o : Origin) : String := "#origin " ++ o.word ++ "\n"

/-- The lines of the header before that of the origin. -/
def Manifest.linesAbove (m : Manifest) : List String :=
  ["#module " ++ m.module, "#namespace " ++ m.ns, "#inherits " ++ m.inherits] ++
    m.imports.map ("#import " ++ ·)

lemma Manifest.code_eq (m : Manifest) : m.code =
    String.join (m.linesAbove.map (· ++ "\n")) ++ m.origin.line ++ ("---\n" ++ m.body) := by
  rw [code, headerLines, linesAbove, Origin.line, ← String.toList_inj]
  simp [String.toList_join]

/-- The same text is translated alike, wherever it is kept. -/
theorem translate_of_decoded_eq (h : c.decoded = c'.decoded) :
    translate g module c' =
      (translate g module c).map fun m => { m with origin := c'.origin } := by
  simp only [translate, h]
  cases c'.decoded with
  | error d => rfl
  | ok text =>
    simp only [Except.mapError, Except.ok_bind]
    cases Markup.ofText text.toList with
    | error ds => rfl
    | ok markup =>
      simp only [Except.ok_bind]
      cases readBody markup.offset (String.ofList markup.body) <;> rfl

lemma translate_congr (h : c.decoded = c'.decoded) (horigin : c.origin = c'.origin) :
    translate g module c = translate g module c' := by
  rw [translate, translate, h, horigin]

/-- What cannot be decoded is not translated, for that one reason. -/
lemma translate_of_decoded_error {d : Diagnostic} (h : c.decoded = .error d) :
    translate g module c = .error [d] := by
  rw [translate, h]
  rfl

lemma decoded_of_bytes_eq {bytes : List UInt8} (h : c.bytes = .ok bytes)
    (h' : c'.bytes = .ok bytes) : c.decoded = c'.decoded := by
  rw [Content.decoded, h, Content.decoded, h']

lemma decoded_of_decodeMarked {bytes : List UInt8} {s : String} (h : c.bytes = .ok bytes)
    (hs : Utf8.decodeMarked bytes = .ok s) : c.decoded = .ok s := by
  rw [Content.decoded, h]
  exact Except.mapError_eq_ok_iff.mpr hs

/-- A text in memory and its bytes in a stream make the same module, whose origin is another. -/
theorem translate_stream (g : Generation) (module s : String) :
    translate g module (.stream (Utf8.encode s) none) =
      (translate g module (.text s)).map fun m => { m with origin := .stream } :=
  translate_of_decoded_eq (decoded_of_bytes_eq rfl rfl)

lemma origin_of_translate {m : Manifest} (h : translate g module c = .ok m) :
    m.origin = c.origin := by
  obtain ⟨_, _, _, _, _, _, rfl⟩ := translate_eq_ok_iff.mp h
  rfl

/-- Bytes that are no text are refused for the way in which they are none. -/
theorem translate_of_undecodable {bytes : List UInt8}
    (h : ∀ s, Utf8.encode s ≠ Utf8.dropMark bytes) : ∃ fault,
      Utf8.decode (Utf8.dropMark bytes) = .error fault ∧
      translate g module (.stream bytes none) = .error [.error Diagnostic.undecodable
        s!"template is not valid UTF-8: {fault.message}"] := by
  cases hread : Utf8.decode (Utf8.dropMark bytes) with
  | ok s => exact absurd (Utf8.decode_eq_ok_iff.mp hread) (h s)
  | error fault =>
    refine ⟨fault, rfl, translate_of_decoded_error ?_⟩
    show (Utf8.decode (Utf8.dropMark bytes)).mapError _ = _
    rw [hread]
    rfl

/-- Whether a template is kept in memory or comes as bytes makes no difference but for the line of
its origin. Of the bytes one leading mark is dropped; bytes that are no text, or that cannot all be
read, are refused for that and nothing else. -/
theorem translate_whatever_kept (g : Generation) (module : String) :
    (∀ s,
      (∃ ds, translate g module (.text s) = .error ds ∧
        translate g module (.stream (Utf8.encode s) none) = .error ds) ∨
      (∃ (above : List String) (below : String),
        (translate g module (.text s)).map Manifest.code =
          .ok (String.join (above.map (· ++ "\n")) ++ "#origin text\n" ++ below) ∧
        (translate g module (.stream (Utf8.encode s) none)).map Manifest.code =
          .ok (String.join (above.map (· ++ "\n")) ++ "#origin stream\n" ++ below))) ∧
    (∀ s : String, s.toList.head? ≠ some '\uFEFF' →
      translate g module (.stream (Utf8.mark ++ Utf8.encode s) none) =
        translate g module (.stream (Utf8.encode s) none)) ∧
    (∀ s, (Content.stream (Utf8.mark ++ Utf8.encode s) none).decoded = .ok s ∧
      (Content.text ("\uFEFF" ++ s)).decoded = .ok s) ∧
    (∀ bytes, (∀ s, Utf8.encode s ≠ Utf8.dropMark bytes) → ∃ fault,
      Utf8.decode (Utf8.dropMark bytes) = .error fault ∧
      translate g module (.stream bytes none) =
        .error [.error "STC0002" s!"template is not valid UTF-8: {fault.message}"]) ∧
    (∀ bytes reason, translate g module (.stream bytes (some reason)) =
      .error [.error "STC0003" s!"failed to read template: {reason}"]) := by
  have hmarked : ∀ s, Utf8.decodeMarked (Utf8.mark ++ Utf8.encode s) = .ok s :=
    Utf8.decodeMarked_mark_append
  refine ⟨fun s => ?_, fun s hs => ?_, fun s => ⟨?_, ?_⟩, fun bytes => translate_of_undecodable,
    fun bytes reason => translate_of_decoded_error rfl⟩
  · rw [translate_stream]
    cases htext : translate g module (.text s) with
    | error ds => exact .inl ⟨ds, rfl, rfl⟩
    | ok m =>
      refine .inr ⟨m.linesAbove, "---\n" ++ m.body, ?_, ?_⟩
      · rw [Except.map, Manifest.code_eq, origin_of_translate htext]
        rfl
      · rw [Except.map, Except.map, Manifest.code_eq]
        rfl
  · refine translate_congr ?_ rfl
    rw [decoded_of_decodeMarked rfl (hmarked s),
      decoded_of_decodeMarked rfl (Utf8.decodeMarked_encode hs)]
  · exact decoded_of_decodeMarked rfl (hmarked s)
  · refine decoded_of_decodeMarked rfl ?_
    rw [Utf8.encode_mark_append]
    exact hmarked s

/-- The bytes of a surrogate are no text, with or without a mark before them. -/
theorem translate_whatever_kept_surrogate :
    "@using A\nhi".toList.head? ≠ some '\uFEFF' ∧
      translate {} "V" (.stream (Utf8.mark ++ Utf8.encode "@using A\nhi") none) =
        translate {} "V" (.stream (Utf8.encode "@using A\nhi") none) ∧
      (∀ s, Utf8.encode s ≠ Utf8.dropMark (Utf8.mark ++ [0xED, 0xA0, 0x80])) ∧
      translate {} "V" (.stream (Utf8.mark ++ [0xED, 0xA0, 0x80]) none) = .error [.error "STC0002"
        "template is not valid UTF-8: invalid utf-8 sequence of 1 bytes from index 0"] := by
  obtain ⟨-, hmark, -, hundecodable, -⟩ := translate_whatever_kept {} "V"
  have hhead : "@using A\nhi".toList.head? ≠ some '\uFEFF' := by decide
  have hread : Utf8.decode (Utf8.dropMark (Utf8.mark ++ [0xED, 0xA0, 0x80])) =
      .error (.invalid 1 0) := by decide +kernel
  have hnone : ∀ s, Utf8.encode s ≠ Utf8.dropMark (Utf8.mark ++ [0xED, 0xA0, 0x80]) := by
    intro s hs
    rw [Utf8.decode_eq_ok_iff.mpr hs] at hread
    cases hread
  obtain ⟨fault, hfault, htranslate⟩ := hundecodable _ hnone
  obtain rfl := Except.error.inj (hread.symm.trans hfault)
  exact ⟨hhead, hmark _ hhead, hnone, htranslate⟩

end CompiledViews
