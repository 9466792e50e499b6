import CompiledViews.Proofs.Cache.Batches
import CompiledViews.Proofs.Cache.Mirrors

/-!
Modules that refuse to be released. Nobody but a rendering can tell whether a module has given up
what it holds, so a run goes on just as it would if no module refused anything: the same steps can
be taken in the same turns, and every call returns the same answer.
-/

namespace CompiledViews

/-- The module as it would be if it refused no request. -/
def Module.willing (m : Module) : Module := { m with refusals := 0 }

namespace View

def willing (v : View) : View := { v with module := v.module.willing }

lemma willing_release (v : View) : v.release.willing = v.willing.release := by
  unfold release willing
  dsimp only
  split <;> rfl

end View

/-- The toolchain that loads such modules. -/
def Toolchain.willing (tools : Toolchain) : Toolchain :=
  { tools with load := fun h i => (tools.load h i).map fun (m, h) => (m.willing, h) }

namespace Workshop

def willing (w : Workshop) : Workshop := { w with tools := w.tools.willing }

lemma make_willing (w : Workshop) (path : String) (content : Content) :
    w.willing.make path content =
      ((w.make path content).1.map View.willing, (w.make path content).2.willing) := by
  simp only [make, willing, Toolchain.willing]
  cases w.tools.translate (w.nameOf (w.begun + 1)) content with
  | error e => cases e <;> rfl
  | ok code =>
    dsimp only
    cases w.tools.compile (w.nameOf (w.begun + 1)) code with
    | error e => rfl
    | ok image =>
      dsimp only
      cases w.tools.load w.host image <;> rfl

end Workshop

/-- Whether a request renders a view. -/
def Request.isRender : Request → Bool
  | .render _ _ => true
  | _ => false

namespace Cache

/-- The cache as it would be if no module had refused anything. -/
def willing (c : Cache) : Cache :=
  { c with workshop := c.workshop.willing, views := c.views.map View.willing }

variable {c : Cache} {t : FileTree} {who : Caller} {q : Request} {s : Stage} {o : Outcome}
  (key k : String) (id : ℕ) (f : Counts → Counts) (content : Content) (v : View)

@[simp] lemma entry?_willing : entry? c.willing k = c.entry? k := rfl
@[simp] lemma count_willing : c.willing.count f = (c.count f).willing := rfl

@[simp] lemma askSlot_willing : c.willing.askSlot key = (c.askSlot key).willing := by
  unfold askSlot
  split <;> split <;> first | rfl | contradiction

@[simp] lemma release_willing : c.willing.release id = (c.release id).willing := by
  have hviews : (c.views.map View.willing).modify id View.release =
      (c.views.modify id View.release).map View.willing :=
    (map_modify_of_comm View.willing_release c.views id).symm
  unfold release willing
  rw [hviews]

@[simp] lemma evict_willing :
    c.willing.evict key = ((c.evict key).1, (c.evict key).2.willing) := by
  cases he : c.entry? key with
  | none => rw [c.evict_of_none key he, c.willing.evict_of_none key he]
  | some id =>
    have hentries : { c.willing with entries := c.willing.entries.erase key } =
        willing { c with entries := c.entries.erase key } := rfl
    simp only [evict, entry?_willing, he, hentries, release_willing, count_willing]

@[simp] lemma store_willing :
    c.willing.store key v.willing = ((c.store key v).1, (c.store key v).2.willing) := by
  have hlength : c.willing.views.length = c.views.length := by simp [willing]
  have hviews : c.willing.views ++ [v.willing] = (c.views ++ [v]).map View.willing := by
    simp [willing]
  cases he : c.entry? key with
  | none =>
    simp only [store, keep, entry?_willing, he, hlength, hviews]
    rfl
  | some replaced =>
    simp only [store, keep, entry?_willing, he, hlength, hviews]
    rw [← release_willing]
    rfl

lemma releaseAll_willing (ids : List ℕ) (c : Cache) :
    ids.foldl release c.willing = (ids.foldl release c).willing := by
  induction ids generalizing c with
  | nil => rfl
  | cons id ids ih => rw [List.foldl_cons, release_willing, ih, List.foldl_cons]

@[simp] lemma clear_willing : c.willing.clear = (c.clear.1, c.clear.2.willing) := by
  have hentries : { c.willing with entries := {} } = willing { c with entries := {} } := rfl
  have hvalues : c.willing.entries.values = c.entries.values := rfl
  have hsize : c.willing.size = c.size := rfl
  simp only [clear, hentries, hvalues, hsize, releaseAll_willing, count_willing]

@[simp] lemma make_willing : c.willing.make key content =
    ((c.make key content).1.map View.willing, (c.make key content).2.willing) := by
  have hmade := c.workshop.make_willing key content
  simp only [make, willing] at hmade ⊢
  rw [hmade]

end Cache

def Stage.willing : Stage → Stage
  | .storing v => .storing v.willing
  | s => s

def Outcome.willing : Outcome → Outcome
  | .blocked => .blocked
  | .going s c => .going s.willing c.willing
  | .finished a c => .finished a c.willing

namespace Cache

variable {c : Cache} {t : FileTree} {who : Caller} {q : Request} {s : Stage} {o : Outcome}

lemma settle_willing (hq : q.isRender = false) (a : Answer) :
    (q.settle a c).willing = q.settle a c.willing := by
  cases q with
  | render => cases hq
  | _ => rfl

/-- Whatever a call other than a rendering does, it does if nothing is refused. -/
theorem Move.willing (h : c.Move t who q s o) (hq : q.isRender = false) :
    c.willing.Move t who q s.willing o.willing := by
  cases h with
  | hit hkey he =>
    rw [settle_willing hq]
    exact .hit hkey he
  | unknown hkey he hr => exact .unknown hkey he hr
  | ask hkey he hr =>
    rw [Outcome.willing, ← askSlot_willing]
    exact .ask hkey he hr
  | @evict _ key _ hkey he hr =>
    have hmove : c.willing.Move t who q .start _ := .evict hkey he hr
    rwa [evict_willing, askSlot_willing] at hmove
  | forget hkey he hr =>
    have hmove : c.willing.Move t who q .start _ := .forget hkey he hr
    rwa [evict_willing] at hmove
  | ignore hkey he hr => exact .ignore hkey he hr
  | take hkey hfree => exact .take hkey hfree
  | hitLate hkey he => exact .hitLate hkey he
  | miss hkey he => exact .miss hkey he
  | rebuilt hkey he => exact .rebuilt hkey he
  | rebuild hkey he => exact .rebuild hkey he
  | evictLate hkey he =>
    have hmove : c.willing.Move t who q (.holding false) _ := .evictLate hkey he
    rwa [evict_willing] at hmove
  | absent hkey he => exact .absent hkey he
  | opens hkey => exact .opens hkey
  | unopened hkey => exact .unopened hkey
  | @fails _ key content e hkey hmake =>
    have hfails : (c.willing.make key content).1 = .error e := by
      rw [make_willing, hmake]
      rfl
    have hmove : c.willing.Move t who q _ _ := .fails hkey hfails
    rwa [make_willing] at hmove
  | @makes _ key content v hkey hmake =>
    have hmakes : (c.willing.make key content).1 = .ok v.willing := by
      rw [make_willing, hmake]
      rfl
    have hmove : c.willing.Move t who q _ _ := .makes hkey hmakes
    rwa [make_willing] at hmove
  | @stores _ key v hkey =>
    have hmove : c.willing.Move t who q _ _ := .stores (v := v.willing) hkey
    rwa [store_willing] at hmove
  | leaves hkey =>
    rw [settle_willing hq]
    exact .leaves hkey
  | renders => cases hq
  | gets => exact .gets
  | clears =>
    have hmove : c.willing.Move t who .clear .start _ := .clears
    rwa [clear_willing] at hmove

/-- The same comes of a step if nothing is refused. -/
theorem step_willing (hq : q.isRender = false) (hb : c.step t who q s ≠ .blocked) :
    c.willing.step t who q s.willing = (c.step t who q s).willing :=
  ((Move.of_step hb).willing hq).step_eq

end Cache

/-- No client is to render anything. -/
def Machine.Silent (m : Machine) : Prop :=
  ∀ cl ∈ m.clients, ∀ q ∈ cl.todo, Request.isRender q = false

def Client.willing (cl : Client) : Client := { cl with stage := cl.stage.willing }

namespace Machine

/-- The machine as it would be if no module had refused anything. -/
def willing (m : Machine) : Machine :=
  { m with cache := m.cache.willing, clients := m.clients.map Client.willing }

variable {m m' : Machine} {a : Action}

lemma call?_willing (m : Machine) (who : Caller) :
    m.willing.call? who = (m.call? who).map fun (q, s) => (q, s.willing) := by
  simp only [call?, willing, List.getElem?_map]
  cases m.clients[who]? with
  | none => rfl
  | some cl => simp [Client.call?, Client.willing, Function.comp_def]

lemma isIdle_willing (m : Machine) : m.willing.isIdle = m.isIdle := by
  simp only [isIdle, willing, List.getElem?_map]
  cases m.clients[0]? <;> rfl

end Machine

lemma Client.advance_willing {cl cl' : Client} {t : FileTree} {who : Caller} {c c' : Cache}
    (hsilent : ∀ q ∈ cl.todo, Request.isRender q = false)
    (h : cl.advance t who c = some (cl', c')) :
    cl.willing.advance t who c.willing = some (cl'.willing, c'.willing) := by
  obtain ⟨q, rest, htodo, hcases⟩ := advance_eq_some h
  have hq : q.isRender = false := hsilent q (by simp [htodo])
  have hstep (hb : c.step t who q cl.stage ≠ .blocked) :
      c.willing.step t who q cl.stage.willing = (c.step t who q cl.stage).willing :=
    Cache.step_willing hq hb
  unfold advance
  rw [show cl.willing.todo = q :: rest from htodo]
  rcases hcases with ⟨s, ho, rfl⟩ | ⟨a, ho, rfl⟩
  · simp only [Client.willing, hstep (by simp [ho]), ho, Outcome.willing, htodo]
  · simp only [Client.willing, hstep (by simp [ho]), ho, Outcome.willing]
    rfl

namespace Machine

variable {m m' : Machine} {a : Action}

theorem act_willing (hm : m.Silent) (h : m.act a = some m') :
    m.willing.act a = some m'.willing := by
  cases a with
  | call requests =>
    obtain rfl := Option.some.inj h
    simp [act, willing, Client.willing, Stage.willing]
  | edit files | notify path =>
    obtain rfl := Option.some.inj h
    rfl
  | advance who =>
    obtain ⟨cl, cl', c', hcl, hadv, rfl⟩ := act_advance_eq_some h
    have hadv' := Client.advance_willing (hm cl (List.mem_of_getElem? hcl)) hadv
    simp [act, willing, hcl, hadv', List.map_set]
  | receive =>
    obtain ⟨first, rest, hloop, hidle, hqueue, rfl⟩ := act_receive_eq_some h
    have hidle' : m.willing.isIdle = true := m.isIdle_willing.trans hidle
    simp only [act, show m.willing.loop = .idle from hloop, hidle',
      show m.willing.queue = first :: rest from hqueue]
    rfl
  | drain =>
    obtain ⟨first, hloop, rfl⟩ := act_drain_eq_some h
    have hclients : (m.clients.modify 0 fun cl =>
          { cl with todo := invalidations (first :: m.queue) }).map Client.willing =
        (m.clients.map Client.willing).modify 0 fun cl =>
          { cl with todo := invalidations (first :: m.queue) } := by
      refine map_modify_of_comm ?_ _ _
      exact fun _ => rfl
    simp only [act, show m.willing.loop = .gathering first from hloop]
    simp only [willing, hclients]

lemma Silent.act (hm : m.Silent) (h : m.act a = some m')
    (ha : ∀ requests, a = .call requests → ∀ q ∈ requests, Request.isRender q = false) :
    m'.Silent := by
  cases a with
  | call requests =>
    obtain rfl := Option.some.inj h
    intro cl hcl
    rcases List.mem_append.mp hcl with hold | hnew
    · exact hm cl hold
    · rw [List.mem_singleton.mp hnew]
      exact ha requests rfl
  | edit files | notify path =>
    obtain rfl := Option.some.inj h
    exact hm
  | advance who =>
    obtain ⟨cl, cl', c', hcl, hadv, rfl⟩ := act_advance_eq_some h
    obtain ⟨q, rest, htodo, hcases⟩ := Client.advance_eq_some hadv
    have hold := hm cl (List.mem_of_getElem? hcl)
    intro d hd
    rcases List.mem_or_eq_of_mem_set hd with hd | rfl
    · exact hm d hd
    · rcases hcases with ⟨s, -, rfl⟩ | ⟨a, -, rfl⟩
      · exact hold
      · exact fun q hq => hold q (htodo ▸ List.mem_cons_of_mem _ hq)
  | receive =>
    obtain ⟨first, rest, -, -, -, rfl⟩ := act_receive_eq_some h
    exact hm
  | drain =>
    obtain ⟨first, -, rfl⟩ := act_drain_eq_some h
    intro d hd
    obtain ⟨i, hi⟩ := List.mem_iff_getElem?.mp hd
    rw [List.getElem?_modify, Option.map_eq_map, Option.map_eq_some_iff] at hi
    obtain ⟨cl, hcl, rfl⟩ := hi
    split
    · -- the client of the loop has nothing to do but to invalidate
      intro q hq
      obtain ⟨path, -, rfl⟩ := mem_invalidations.mp hq
      rfl
    · exact hm cl (List.mem_of_getElem? hcl)

end Machine

namespace Run

/-- Nobody asks for a rendering. -/
def Silent (r : Run) : Prop := ∀ t requests, r.action t = some (.call requests) →
  ∀ q ∈ requests, Request.isRender q = false

variable {r : Run} {who : Caller} {q : Request} {b e t : ℕ} {s : Stage} {a : Answer}

lemma Silent.state (hr : r.Silent) (t : ℕ) : (r.state t).Silent := by
  induction t with
  | zero =>
    obtain ⟨files, registry, workshop, h⟩ := r.fresh
    rw [h]
    intro cl hcl
    rw [List.mem_singleton.mp hcl]
    simp
  | succ t ih =>
    cases ha : r.action t with
    | none => rwa [r.state_succ_of_pause t ha]
    | some x =>
      refine ih.act (r.act_eq t ha) ?_
      rintro requests rfl
      exact hr t requests ha

/-- The run as it would be if no module refused anything. -/
def willing (r : Run) (hr : r.Silent) : Run where
  state t := (r.state t).willing
  action := r.action
  fresh := by
    obtain ⟨files, registry, workshop, h⟩ := r.fresh
    exact ⟨files, registry, workshop.willing, by rw [h]; rfl⟩
  next t := by
    cases ha : r.action t with
    | none => rw [r.state_succ_of_pause t ha, Machine.turn]
    | some x => exact Machine.act_willing (hr.state t) (r.act_eq t ha)

lemma Silent.call (hr : r.Silent) (hcall : (r.state t).call? who = some (q, s)) :
    q.isRender = false := by
  obtain ⟨cl, rest, hcl, htodo, -⟩ := Machine.call?_eq_some_iff.mp hcall
  exact hr.state t cl (List.mem_of_getElem? hcl) q (by simp [htodo])

/-- A step of a call leads to the same if nothing is refused. -/
lemma Steps.outcomeAt_willing (hr : r.Silent) (h : r.Steps who q b t s) :
    (r.willing hr).outcomeAt who q s.willing t = (r.outcomeAt who q s t).willing :=
  Cache.step_willing (hr.call h.1.call?) h.move.ne_blocked

lemma Reaches.willing (hr : r.Silent) (h : r.Reaches who q b t s) :
    (r.willing hr).Reaches who q b t s.willing := by
  induction h with
  | begins ha hcall =>
    refine .begins ha ?_
    rw [Run.willing, Machine.call?_willing, hcall]
    rfl
  | waits _ ha ih => exact ih.waits ha
  | @goes t s s' c h ha ho ih =>
    have hsteps : r.Steps who q b t s := ⟨h, ha⟩
    refine ih.goes (c := c.willing) ha ?_
    rw [hsteps.outcomeAt_willing hr, ho]
    rfl

/-- A call gets no further if nothing is refused. -/
lemma Reaches.exists_of_willing {hr : r.Silent} {s' : Stage}
    (h : (r.willing hr).Reaches who q b t s') : ∃ s, s' = s.willing ∧ r.Reaches who q b t s := by
  induction h with
  | begins ha hcall =>
    refine ⟨.start, rfl, .begins ha ?_⟩
    rw [Run.willing, Machine.call?_willing, Option.map_eq_some_iff] at hcall
    obtain ⟨⟨q', s⟩, hcall, heq⟩ := hcall
    cases s <;> cases heq
    exact hcall
  | waits _ ha ih =>
    obtain ⟨s, rfl, hreach⟩ := ih
    exact ⟨s, rfl, hreach.waits ha⟩
  | @goes t _ s' c _ ha ho ih =>
    obtain ⟨s, rfl, hreach⟩ := ih
    have hsteps : r.Steps who q b t s := ⟨hreach, ha⟩
    rw [hsteps.outcomeAt_willing hr] at ho
    cases houtcome : r.outcomeAt who q s t with
    | blocked => exact absurd houtcome hsteps.move.ne_blocked
    | going s₁ c₁ =>
      rw [houtcome] at ho
      cases ho
      exact ⟨s₁, rfl, hreach.goes ha houtcome⟩
    | finished a c₁ =>
      rw [houtcome] at ho
      cases ho

theorem returns_willing_iff (hr : r.Silent) :
    (r.willing hr).Returns who q b e a ↔ r.Returns who q b e a := by
  constructor
  · rintro ⟨s', c, ⟨hreach', ha⟩, ho⟩
    obtain ⟨s, rfl, hreach⟩ := hreach'.exists_of_willing
    have hsteps : r.Steps who q b e s := ⟨hreach, ha⟩
    rw [hsteps.outcomeAt_willing hr] at ho
    cases houtcome : r.outcomeAt who q s e with
    | blocked => exact absurd houtcome hsteps.move.ne_blocked
    | going s₁ c₁ =>
      rw [houtcome] at ho
      cases ho
    | finished a₁ c₁ =>
      rw [houtcome] at ho
      cases ho
      exact ⟨s, c₁, hsteps, houtcome⟩
  · rintro ⟨s, c, hsteps, ho⟩
    refine ⟨s.willing, c.willing, ⟨hsteps.1.willing hr, hsteps.2⟩, ?_⟩
    rw [hsteps.outcomeAt_willing hr, ho]
    rfl

end Run

end CompiledViews
