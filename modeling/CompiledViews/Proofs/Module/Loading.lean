import CompiledViews.Module.Basic
import CompiledViews.Proofs.Code.Translation
import CompiledViews.Proofs.Module.Image
import Mathlib.Logic.Function.Iterate

/-! Loading what was compiled. Code that compiles has a body that can be read, so its image is
loaded, and the module renders the body until it is released. -/

namespace CompiledViews

variable {references : List String} {module code : String} {m : Manifest} {host : Host}

namespace Code

/-- What compiles is named as it was asked for, and its body can be read. -/
theorem of_read_eq_ok (h : Code.read references module code = .ok m) :
    m.module = module ∧ ∃ nodes, Template.parse m.body = .ok nodes := by
  dsimp only [Code.read] at h
  split at h
  · cases h
  · split at h
    case h_1 hnil =>
      obtain ⟨-, hbody⟩ := List.append_eq_nil_iff.mp hnil
      cases h
      refine ⟨rfl, ?_⟩
      split at hbody
      case h_1 nodes hread => exact ⟨nodes, readBody_eq_ok_iff.mp hread⟩
      case h_2 => cases hbody
    case h_2 => cases h

end Code

theorem of_compile_eq_ok (h : compile references module code = .ok m) :
    m.module = module ∧ ∃ nodes, Template.parse m.body = .ok nodes :=
  Code.of_read_eq_ok (Except.mapError_eq_ok_iff.mp h)

/-- The module of a manifest whose body has been read. -/
def Manifest.loaded (m : Manifest) (nodes : List Template.Node) : Module where
  name := m.module
  baseType := m.inherits
  imports := m.imports
  nodes := nodes

/-- An image is loaded whenever the body of its manifest can be read. -/
theorem load_image {nodes : List Template.Node} (hbody : Template.parse m.body = .ok nodes)
    (host : Host) :
    load host m.image = .ok (m.loaded nodes, host.insert m.module ⟨m.ns, m.inherits⟩) := by
  have hbytes : Text.Utf8.decode m.image.bytes = .ok (String.ofList m.json) := by
    rw [Manifest.image, Text.Utf8.decode_encode]
  simp only [load, hbytes, String.toList_ofList, m.ofJson?_json, hbody]
  exact if_neg (not_not_intro rfl)

namespace Module

variable {v : Module}

lemma release_iterate (v : Module) (n : ℕ) :
    release^[n] v = { v with requests := v.requests + n } := by
  induction n with
  | zero => rfl
  | succ n ih =>
    rw [Function.iterate_succ_apply', ih]
    rfl

/-- A module that refuses nothing renders until it is asked to release what it holds. -/
theorem render_of_not_released (h : v.released = false) (model : Json) :
    v.render model =
      (Template.render v.name v.nodes model).mapError fun f => .template (f.text v.name) := by
  rw [render, if_neg (by simp [h])]

theorem render_of_released (h : v.released = true) (model : Json) :
    v.render model = .error (.released v.name) := by
  rw [render, if_pos h]

/-- A module that refuses to release what it holds renders as before. -/
theorem render_release_of_refused (h : v.release.released = false) (model : Json) :
    v.release.render model = v.render model := by
  have hbefore : v.released = false := by
    have hle := of_decide_eq_false h
    exact decide_eq_false fun hlt => hle (Nat.lt_succ_of_lt hlt)
  rw [render_of_not_released h, render_of_not_released hbefore]
  rfl

end Module

/-- Whatever compiles can be loaded: the module has the name, the type to inherit from and the
imports of the manifest, renders its body until it is released, and the host has a record of it and
those that it had before. -/
theorem load_compiled (h : compile references module code = .ok m) (host : Host) :
    ∃ v nodes host', load host m.image = .ok (v, host') ∧
      v.name = module ∧ v.baseType = m.inherits ∧ v.imports = m.imports ∧
      Template.parse m.body = .ok nodes ∧
      (∀ model, v.render model =
        (Template.render module nodes model).mapError fun f => .template (f.text module)) ∧
      (∀ n model, 0 < n → (Module.release^[n] v).render model = .error (.released module)) ∧
      ∀ name, host'.get? name =
        if name = module then some ⟨m.ns, m.inherits⟩ else host.get? name := by
  obtain ⟨rfl, nodes, hbody⟩ := of_compile_eq_ok h
  refine ⟨m.loaded nodes, nodes, _, load_image hbody host, rfl, rfl, rfl, hbody,
    Module.render_of_not_released rfl, fun n model hn => ?_, fun name => Table.get?_insert ..⟩
  have hreleased : (Module.release^[n] (m.loaded nodes)).released = true := by
    rw [Module.release_iterate]
    simpa [Module.released, Manifest.loaded] using hn
  have hname : (Module.release^[n] (m.loaded nodes)).name = m.module := by
    rw [Module.release_iterate]
    rfl
  rw [Module.render_of_released hreleased, hname]

/-- Quotes, backslashes, control characters and characters of any plane come through. -/
theorem load_compiled_escapes :
    let code := "#module V\"1\\\n#namespace N\x01\n#inherits B<😀>\n#import I\n---\n\x00\"\\\t{{x}}"
    let m : Manifest := ⟨"V\"1\\", "N\x01", "B<😀>", ["I"], .text, "\x00\"\\\t{{x}}"⟩
    compile ["I"] "V\"1\\" code = .ok m ∧
      ∃ v host, load {} m.image = .ok (v, host) ∧ v.name = "V\"1\\" ∧ v.imports = ["I"] ∧
        (v.release.render .null) = .error (.released "V\"1\\") ∧
        host.get? "V\"1\\" = some ⟨"N\x01", "B<😀>"⟩ := by
  intro code m
  have hcompile : compile ["I"] "V\"1\\" code = .ok m := by decide +kernel
  obtain ⟨v, nodes, host, hload, hname, -, himports, -, -, hreleased, hhost⟩ :=
    load_compiled hcompile {}
  exact ⟨hcompile, v, host, hload, hname, himports, hreleased 1 .null Nat.one_pos,
    (hhost _).trans (if_pos rfl)⟩

end CompiledViews
