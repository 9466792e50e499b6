import CompiledViews.Proofs.Cache.Progress
import CompiledViews.Proofs.Cache.Release
import CompiledViews.Proofs.Cache.SingleFlight
import CompiledViews.Proofs.Module.Loading

/-!
Rendering while views are taken out. A call that renders finds the view of its key in one step and
renders it in a later one. In between the view may be taken out, and then it is released already
when it is rendered. Nothing else keeps the call from the text of a view.
-/

namespace CompiledViews

namespace Cache

variable {c : Cache} {t : FileTree} {who : Caller} {q : Request} {s : Stage} {o : Outcome}
  {key : String}

/-- A lookup leaves with a view, or with what has kept its compile from making one. -/
theorem Move.leaving_cases {a : Answer} (h : c.Move t who q s o) (hq : q.lookupKey? = some key)
    (ho : o.stage = .leaving a) :
    (∃ id, a = .view id) ∨ ∃ opened e, s = .making opened ∧ a = .error e := by
  cases h with
  | hit | leaves => exact absurd ho (stage_settle_ne rfl)
  | @hitLate _ _ id | @stores _ _ v =>
    obtain rfl := Stage.leaving.inj ho
    exact .inl ⟨_, rfl⟩
  | unopened | fails =>
    obtain rfl := Stage.leaving.inj ho
    exact .inr ⟨_, _, rfl, rfl⟩
  | rebuilt hq' | absent hq' =>
    cases q <;> simp_all [Request.lookupKey?, Request.invalidationKey?]
  | _ => simp at ho

/-- A call that renders returns what comes of the rendering, or it leaves without a view, or its key
is not registered. -/
theorem Move.render_finished {path : String} {model : Json} {a : Answer} {c' : Cache}
    (h : c.Move t who (.render path model) s o) (ho : o = .finished a c') :
    (∃ id, s = .rendering id ∧ a = c.renderFound id model) ∨
      (s = .leaving a ∧ ∀ id, a ≠ .view id) ∨
      ¬ c.registry.contains (Path.normalizeLogical path) := by
  generalize hr : Request.render path model = q at h
  cases h with
  | hit => simp [← hr, Request.settle] at ho
  | unknown hq _ hunknown =>
    subst hr
    cases hq
    exact .inr (.inr hunknown)
  | forget hq | ignore hq =>
    subst hr
    cases hq
  | @leaves q key x =>
    subst hr
    cases x with
    | view id => simp [Request.settle] at ho
    | _ =>
      cases ho
      exact .inr (.inl ⟨rfl, by simp⟩)
  | @renders path' model' id =>
    cases hr
    cases ho
    exact .inl ⟨id, rfl, rfl⟩
  | gets | clears => cases hr
  | _ => cases ho

end Cache

namespace Machine.Kept

variable {m : Machine} {key : String} {id : Nat} {v : View} {model : Json}

/-- A view that has been kept renders as it did when it was stored. -/
lemma renderFound_of_entry {s : String} (h : m.Kept key id v) (he : m.cache.entry? key = some id)
    (hv : v.render model = .ok s) : m.cache.renderFound id model = .text s := by
  rcases h with ⟨-, hview⟩ | ⟨hno, -⟩
  · simp [Cache.renderFound, hview, hv]
  · exact absurd he (hno key)

/-- A view that has been taken out fails to render, for it has been released. -/
lemma renderFound_of_released (h : m.Kept key id v) (hne : m.cache.entry? key ≠ some id)
    (hv : v.released = false) (hreleases : v.module.release.released) :
    m.cache.renderFound id model = .error ⟨v.path, .notRendered (.released v.module.name)⟩ := by
  rcases h with ⟨he, -⟩ | ⟨-, hview⟩
  · exact absurd he hne
  · have hrender : v.release.render model = .error (.released v.module.name) := by
      rw [View.release_of_not_released hv]
      exact Module.render_of_released hreleases model
    simp only [Cache.renderFound, hview, hrender]
    rw [View.release_of_not_released hv]

/-- A view whose module refuses to release what it holds renders on. -/
lemma renderFound_of_refused {s : String} (h : m.Kept key id v) (hv : v.released = false)
    (hrefuses : v.module.release.released = false) (hs : v.render model = .ok s) :
    m.cache.renderFound id model = .text s := by
  have hrender : v.release.render model = .ok s := by
    rw [View.release_of_not_released hv]
    exact (Module.render_release_of_refused hrefuses model).trans hs
  rcases h with ⟨-, hview⟩ | ⟨-, hview⟩
  · simp [Cache.renderFound, hview, hs]
  · simp [Cache.renderFound, hview, hrender]

end Machine.Kept

namespace Run

variable {r : Run} {who : Caller} {q : Request} {path key : String} {model : Json} {b e t u : ℕ}
  {id : Nat} {a : Answer}

/-- The registry stays as it is. -/
lemma registry_eq (r : Run) (t : ℕ) :
    (r.state t).cache.registry = (r.state 0).cache.registry := by
  induction t with
  | zero => rfl
  | succ t ih =>
    rcases r.moves_or_rests t with ⟨w, q, s, o, -, hmoves⟩ | ⟨-, hrests⟩
    · rw [hmoves.cache, hmoves.move.registry_eq, ih]
    · rw [hrests.cache, ih]

/-- A call that is about to render a view has found it among the entries, or has put it there. -/
theorem Reaches.entry_of_rendering (h : r.Reaches who q b t (.rendering id))
    (hq : q.key? = some key) : ∃ u, b ≤ u ∧ u < t ∧ r.entryAt key u = some id := by
  obtain ⟨v, s, hvt, hsteps, hstage⟩ := h.exists_steps (by simp)
  obtain ⟨-, ⟨key', hq', he⟩ | rfl⟩ := hsteps.move.stage_eq_rendering hstage
  · obtain rfl : key' = key := Option.some.inj (hq'.symm.trans hq)
    exact ⟨v, hsteps.1.le, hvt, he⟩
  · obtain ⟨u, hbu, huv, he⟩ := hsteps.1.entry_of_leaving hq
    exact ⟨u, hbu, Nat.lt_of_le_of_lt huv hvt, he⟩

/-- A lookup whose compile does not fail leaves with a view. -/
theorem Reaches.view_of_leaving (h : r.Reaches who q b t (.leaving a))
    (hq : q.lookupKey? = some key) (hno : ∀ u e, ¬ r.Fails who q b u e) : ∃ id, a = .view id := by
  obtain ⟨u, s, -, hsteps, hstage⟩ := h.exists_steps (by simp)
  rcases hsteps.move.leaving_cases hq hstage with hview | ⟨opened, e, rfl, rfl⟩
  · exact hview
  · exact absurd ⟨opened, hsteps, hstage⟩ (hno u e)

/-- An entry that is not there any more has been taken out in some turn. -/
lemma exists_removes (he : r.entryAt key u = some id) (hue : u ≤ e)
    (hne : r.entryAt key e ≠ some id) :
    ∃ t, u ≤ t ∧ t < e ∧ r.entryAt key t = some id ∧ r.Removes key t := by
  induction hue with
  | refl => exact absurd he hne
  | @step e hue ih =>
    by_cases hstill : r.entryAt key e = some id
    · refine ⟨e, hue, Nat.lt_succ_self e, hstill, by simp [hstill], ?_⟩
      rwa [hstill]
    · obtain ⟨t, hut, hte, hbefore, hremoves⟩ := ih hstill
      exact ⟨t, hut, Nat.lt_succ_of_lt hte, hbefore, hremoves⟩

/-- A view that a compile has made has the path of its key. -/
lemma Compiled.path_eq {x : Compile} (h : r.Compiled x key id) : x.view.path = key := by
  obtain ⟨m, hm⟩ := Workshop.eq_of_make h.makes.2.2
  rw [hm]

/-- A key has a source, no compile of it fails, and every view that is made of it renders a
model. -/
structure Serves (r : Run) (key : String) (model : Json) : Prop where
  known : (r.state 0).cache.registry.contains key
  compiles : ∀ (who : Caller) (q : Request) (b t : ℕ) (e : ViewError), q.key? = some key →
    ¬ r.Fails who q b t e
  renders : ∀ (who : Caller) (q : Request) (b t : ℕ) (content : Content) (v : View),
    r.Makes who q b t key content v → ∃ s, v.render model = .ok s

/-- Where a key serves a model, a call that renders it comes to the rendering of a view. -/
lemma Serves.rendering_of_returns (h : r.Serves (Path.normalizeLogical path) model)
    (hreturns : r.Returns who (.render path model) b e a) :
    ∃ id, r.Reaches who (.render path model) b e (.rendering id) ∧
      a = (r.state e).cache.renderFound id model := by
  obtain ⟨s, c, hsteps, ho⟩ := hreturns
  rcases hsteps.move.render_finished ho with ⟨id, rfl, ha⟩ | ⟨rfl, hview⟩ | hunknown
  · exact ⟨id, hsteps.1, ha⟩
  · obtain ⟨id, rfl⟩ := hsteps.1.view_of_leaving rfl fun u e' => h.compiles who _ b u e' rfl
    exact absurd rfl (hview id)
  · rw [r.registry_eq] at hunknown
    exact absurd h.known hunknown

/-- While calls of any kind look views up, take them out and make them anew, every call that renders
returns, if its caller gets a slot that becomes free again and again. Where each compile of the key
succeeds and each of its views renders the model, what it returns is the text of a view that was the
entry of the key during the call, made of what the source yielded before the call returned; or
else this view has been taken out between the turn in which it was found and that in which it was to
be rendered, and the call says that it has been released. A view that was taken out is rendered only
if its module has refused to release what it holds. -/
theorem rendered_unless_taken_out {path : String} {model : Json}
    (h : r.Serves (Path.normalizeLogical path) model) :
    (r.Fair → ∀ who b, r.StronglyFair (.advance who) → r.Begins who (.render path model) b →
      ∃ e a, r.Returns who (.render path model) b e a) ∧
    ∀ who b e a, r.Returns who (.render path model) b e a →
      ∃ x id u s, r.Compiled x (Path.normalizeLogical path) id ∧ x.stored < u ∧
        b ≤ u ∧ u < e ∧ r.entryAt (Path.normalizeLogical path) u = some id ∧
        x.view.render model = .ok s ∧
        (a = .text s ∧ (r.entryAt (Path.normalizeLogical path) e = some id ∨
            x.view.module.release.released = false) ∨
          a = .error ⟨Path.normalizeLogical path,
            .notRendered (.released x.view.module.name)⟩ ∧ x.view.module.release.released ∧
          ∃ t, u ≤ t ∧ t < e ∧ r.entryAt (Path.normalizeLogical path) t = some id ∧
            r.Removes (Path.normalizeLogical path) t) := by
  refine ⟨fun hfair who b hslots hbegins => hfair.exists_returns hslots rfl hbegins,
    fun who b e a hreturns => ?_⟩
  obtain ⟨id, hreach, rfl⟩ := h.rendering_of_returns hreturns
  obtain ⟨u, hbu, hue, he⟩ := hreach.entry_of_rendering rfl
  obtain ⟨x, hx, -, hxu⟩ := (r.upToDate_zero u _).stored id he
  obtain ⟨s, hs⟩ := h.renders _ _ _ _ _ _ hx.makes
  have hkept := hx.stores.kept (Nat.lt_trans hxu hue)
  have hfresh := hx.stores.released
  refine ⟨x, id, u, s, hx, hxu, hbu, hue, he, hs, ?_⟩
  by_cases hstill : r.entryAt (Path.normalizeLogical path) e = some id
  · exact .inl ⟨hkept.renderFound_of_entry hstill hs, .inl hstill⟩
  · cases hreleases : x.view.module.release.released with
    | false => exact .inl ⟨hkept.renderFound_of_refused hfresh hreleases hs, .inr rfl⟩
    | true =>
      refine .inr ⟨?_, rfl, exists_removes he (Nat.le_of_lt hue) hstill⟩
      rw [hkept.renderFound_of_released hstill hfresh hreleases, hx.path_eq]

/-- A view is looked up to be rendered, and invalidated before it is. The one that is made anew is
rendered after that. -/
def overtaken : Run :=
  .ofActions .blank ([.call [.render "/a" .null, .render "/a" .null], .call [.invalidate "/a"]] ++
    List.replicate 7 (.advance 1) ++ [.advance 2, .advance 1] ++ List.replicate 6 (.advance 2) ++
    [.advance 1, .advance 1]) Machine.exists_blank_eq_fresh rfl

lemma serves_overtaken : overtaken.Serves (Path.normalizeLogical "/a") .null := by
  have hkey : Path.normalizeLogical "/a" = "/a" := by decide
  rw [hkey]
  refine ⟨rfl, fun who q b t e _ hfails => ?_, fun who q b t content v hmakes => ?_⟩
  · obtain ⟨opened, ⟨hreach, ha⟩, hstage⟩ := hfails
    have hcall := hreach.call?
    have ht : t < 19 := (List.getElem?_eq_some_iff.mp ha).1
    interval_cases t <;> cases ha <;> cases hcall
    all_goals cases hstage
  · obtain ⟨⟨hreach, ha⟩, -, hmade⟩ := hmakes
    have hcall := hreach.call?
    have ht : t < 19 := (List.getElem?_eq_some_iff.mp ha).1
    interval_cases t <;> cases ha <;> cases hcall
    all_goals
      cases hmade
      exact ⟨"", rfl⟩

lemma done_overtaken (t : ℕ) (ht : 19 ≤ t) : (overtaken.state t).isDone := by
  have hstate : overtaken.state t = _ := ofActions_state _ _ ht
  rw [hstate]
  rfl

/-- A call that renders can fail where nothing but renderings and an invalidation of one path, of
which all compiles and renderings succeed, are under way. -/
theorem call_fails_when_overtaken :
    overtaken.Serves (Path.normalizeLogical "/a") .null ∧ overtaken.Fair ∧
      (∀ who q b, overtaken.Begins who q b → q = .render "/a" .null ∨ q = .invalidate "/a") ∧
      overtaken.Returns 1 (.render "/a" .null) 2 10
        (.error ⟨"/a", .notRendered (.released "View_1")⟩) := by
  refine ⟨serves_overtaken, fair_of_done done_overtaken, ?_, ?_⟩
  · rintro who q b ⟨ha, hcall⟩
    have hb : b < 19 := (List.getElem?_eq_some_iff.mp ha).1
    interval_cases b <;> cases ha <;> cases hcall
    all_goals simp
  · have hreach : overtaken.Reaches 1 (.render "/a" .null) 2 10 (.rendering 0) :=
      .waits (.goes (.goes (.goes (.goes (.goes (.goes (.goes (.begins rfl rfl) rfl rfl) rfl rfl)
        rfl rfl) rfl rfl) rfl rfl) rfl rfl) rfl rfl) (by rintro ⟨⟩)
    exact ⟨_, _, ⟨hreach, rfl⟩, rfl⟩

/-- The first of the two calls returns, and the second one with the text of the view that has been
made anew. -/
theorem rendered_after_overtaken :
    overtaken.Serves (Path.normalizeLogical "/a") .null ∧
      (∃ e a, overtaken.Returns 1 (.render "/a" .null) 2 e a) ∧
      ∃ x s, overtaken.Compiled x (Path.normalizeLogical "/a") 1 ∧ x.view.render .null = .ok s ∧
        overtaken.Returns 1 (.render "/a" .null) 17 18 (.text s) := by
  have hreach : overtaken.Reaches 1 (.render "/a" .null) 17 18 (.rendering 1) :=
    .goes (.begins rfl rfl) rfl rfl
  have hreturns : overtaken.Returns 1 (.render "/a" .null) 17 18
      ((overtaken.state 18).cache.renderFound 1 .null) := ⟨_, _, ⟨hreach, rfl⟩, rfl⟩
  have hentry : ∀ t, t = 17 ∨ t = 18 →
      overtaken.entryAt (Path.normalizeLogical "/a") t = some 1 := by
    rw [show Path.normalizeLogical "/a" = "/a" by decide]
    rintro t (rfl | rfl) <;> rfl
  obtain ⟨hreturn, hrendered⟩ := rendered_unless_taken_out serves_overtaken
  refine ⟨serves_overtaken, hreturn (fair_of_done done_overtaken) 1 2
    (stronglyFair_of_done done_overtaken 1) ⟨rfl, rfl⟩, ?_⟩
  obtain ⟨x, id, u, s, hx, -, hu, hue, he, hs, hcases⟩ := hrendered 1 17 18 _ hreturns
  obtain rfl : u = 17 := by omega
  obtain rfl : id = 1 := Option.some.inj (he.symm.trans (hentry 17 (.inl rfl)))
  refine ⟨x, s, hx, hs, ?_⟩
  rcases hcases with ⟨htext, -⟩ | ⟨-, -, t, hut, hte, -, -, hgone⟩
  · rwa [htext] at hreturns
  · obtain rfl : t = 17 := by omega
    exact absurd ((hentry 18 (.inr rfl)).trans he.symm) hgone

end Run

end CompiledViews
