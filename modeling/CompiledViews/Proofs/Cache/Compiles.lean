import CompiledViews.Proofs.Cache.Calls

/-!
Compiles in a run. A compile opens the source of a key, makes a view of what it finds, and stores
the view. From a time at which a key has no entry and nobody is making a view for it, whatever is
stored for it later comes from a compile that opened the source after that time.
-/

namespace CompiledViews

/-- A compile: the call that it is part of, what it finds and makes, and the turns in which it opens
the source, makes the view and stores it. -/
structure Compile where
  who : Caller
  request : Request
  begun : ℕ
  content : Content
  view : View
  opened : ℕ
  made : ℕ
  stored : ℕ

namespace Run

variable (r : Run)

/-- A call opens the source of a key in turn `t` and finds its content. -/
def Opens (who : Caller) (q : Request) (b t : ℕ) (key : String) (content : Content) : Prop :=
  r.Steps who q b t .opening ∧ q.key? = some key ∧
    (r.state t).cache.openSource (r.state t).files key = .ok content

/-- A call makes a view of a content in turn `t`. -/
def Makes (who : Caller) (q : Request) (b t : ℕ) (key : String) (content : Content) (v : View) :
    Prop :=
  r.Steps who q b t (.making (.ok content)) ∧ q.key? = some key ∧
    ((r.state t).cache.make key content).1 = .ok v

/-- A call stores a view as the entry of a key in turn `t`, and the view gets its number. -/
def Stores (who : Caller) (q : Request) (b t : ℕ) (key : String) (v : View) (id : Nat) : Prop :=
  r.Steps who q b t (.storing v) ∧ q.key? = some key ∧ (r.state t).cache.views.length = id

/-- A compile has stored its view for a key under a number. -/
structure Compiled (x : Compile) (key : String) (id : Nat) : Prop where
  opens : r.Opens x.who x.request x.begun x.opened key x.content
  makes : r.Makes x.who x.request x.begun x.made key x.content x.view
  stores : r.Stores x.who x.request x.begun x.stored key x.view id
  opened_lt : x.opened < x.made
  made_lt : x.made < x.stored

/-- The view of a number comes from a compile that opened the source in turn `n` or later. -/
def CompiledSince (n : ℕ) (key : String) (id : Nat) : Prop :=
  ∃ x, r.Compiled x key id ∧ n ≤ x.opened

/-- At time `t`, the view that is stored for a key and those that are on their way to be all come
from sources opened in turn `n` or later. -/
structure UpToDate (n : ℕ) (key : String) (t : ℕ) : Prop where
  stored : ∀ (id : Nat), r.entryAt key t = some id →
    ∃ x, r.Compiled x key id ∧ n ≤ x.opened ∧ x.stored < t
  opened : ∀ (who : Caller) (q : Request) (b : ℕ) (content : Content), q.key? = some key →
    r.Reaches who q b t (.making (.ok content)) →
    ∃ o, r.Opens who q b o key content ∧ n ≤ o ∧ o < t
  made : ∀ (who : Caller) (q : Request) (b : ℕ) (v : View), q.key? = some key →
    r.Reaches who q b t (.storing v) →
    ∃ o m content, r.Opens who q b o key content ∧ r.Makes who q b m key content v ∧
      n ≤ o ∧ o < m ∧ m < t

variable {r} {n t : ℕ} {key : String}

lemma Compiled.opened_lt_stored {x : Compile} {id : Nat} (h : r.Compiled x key id) :
    x.opened < x.stored := Nat.lt_trans h.opened_lt h.made_lt

namespace UpToDate

theorem mono {n' : ℕ} (h : r.UpToDate n key t) (hle : n' ≤ n) : r.UpToDate n' key t where
  stored id he := by
    obtain ⟨x, hx, hn, hlt⟩ := h.stored id he
    exact ⟨x, hx, Nat.le_trans hle hn, hlt⟩
  opened who q b content hq hreach := by
    obtain ⟨o, hopens, hn, hlt⟩ := h.opened who q b content hq hreach
    exact ⟨o, hopens, Nat.le_trans hle hn, hlt⟩
  made who q b v hq hreach := by
    obtain ⟨o, m, content, hopens, hmakes, hn, hlt⟩ := h.made who q b v hq hreach
    exact ⟨o, m, content, hopens, hmakes, Nat.le_trans hle hn, hlt⟩

theorem compiledSince {id : Nat} (h : r.UpToDate n key t) (he : r.entryAt key t = some id) :
    r.CompiledSince n key id := by
  obtain ⟨x, hx, hn, -⟩ := h.stored id he
  exact ⟨x, hx, hn⟩

/-- With no entry, and nobody further than the opening of the source, all is still to come. -/
theorem of_empty (he : r.entryAt key t = none)
    (hcalls : ∀ who q s, (r.state t).call? who = some (q, s) → q.key? = some key → s.builds →
      s = .opening) : r.UpToDate n key t where
  stored id hid := by simp [he] at hid
  opened who q b content hq hreach := by
    have h := hcalls who q _ hreach.call? hq rfl
    simp at h
  made who q b v hq hreach := by
    have h := hcalls who q _ hreach.call? hq rfl
    simp at h

/-- What a turn stores or brings on its way has been opened no earlier than what was there. -/
theorem succ (h : r.UpToDate n key t) (hn : n ≤ t) : r.UpToDate n key (t + 1) where
  stored id he := by
    have hbefore : r.entryAt key t = some id →
        ∃ x, r.Compiled x key id ∧ n ≤ x.opened ∧ x.stored < t + 1 := by
      intro hold
      obtain ⟨x, hx, hno, hlt⟩ := h.stored id hold
      exact ⟨x, hx, hno, Nat.lt_succ_of_lt hlt⟩
    rcases r.moves_or_rests t with ⟨w, q, s, o, ha, hmoves⟩ | ⟨-, hrests⟩
    · rcases (r.coherent t).entry?_of_moves hmoves he with hold | ⟨v, rfl, hq, rfl, -⟩
      · exact hbefore hold
      · obtain ⟨b, hreach⟩ := exists_reaches (by simp) hmoves.call
        obtain ⟨o, m, content, hopens, hmakes, hno, hom, hmt⟩ := h.made w q b v hq hreach
        exact ⟨⟨w, q, b, content, v, o, m, t⟩,
          ⟨hopens, hmakes, ⟨⟨hreach, ha⟩, hq, rfl⟩, hom, hmt⟩, hno, Nat.lt_succ_self t⟩
    · exact hbefore (by rwa [entryAt, hrests.cache] at he)
  opened who q b content hq hreach := by
    rcases hreach.of_succ (by simp) with hbefore | ⟨s, hsteps, hstage⟩
    · obtain ⟨o, hopens, hno, hot⟩ := h.opened who q b content hq hbefore
      exact ⟨o, hopens, hno, Nat.lt_succ_of_lt hot⟩
    · obtain ⟨rfl, key', hq', hopen⟩ := hsteps.move.stage_eq_making hstage
      obtain rfl := Option.some.inj (hq.symm.trans hq')
      exact ⟨t, ⟨hsteps, hq, hopen⟩, hn, Nat.lt_succ_self t⟩
  made who q b v hq hreach := by
    rcases hreach.of_succ (by simp) with hbefore | ⟨s, hsteps, hstage⟩
    · obtain ⟨o, m, content, hopens, hmakes, hno, hom, hmt⟩ := h.made who q b v hq hbefore
      exact ⟨o, m, content, hopens, hmakes, hno, hom, Nat.lt_succ_of_lt hmt⟩
    · obtain ⟨key', content, hq', rfl, hmake⟩ := hsteps.move.stage_eq_storing hstage
      obtain rfl := Option.some.inj (hq.symm.trans hq')
      obtain ⟨o, hopens, hno, hot⟩ := h.opened who q b content hq hsteps.1
      exact ⟨o, t, content, hopens, ⟨hsteps, hq, hmake⟩, hno, hot, Nat.lt_succ_self t⟩

theorem later {t' : ℕ} (h : r.UpToDate n key t) (hn : n ≤ t) (ht : t ≤ t') :
    r.UpToDate n key t' := by
  induction ht with
  | refl => exact h
  | step htt ih => exact ih.succ (Nat.le_trans hn htt)

end UpToDate

variable (r key t)

/-- Whatever is stored at any time comes from a compile. -/
theorem upToDate_zero : r.UpToDate 0 key t := by
  have h : r.UpToDate 0 key 0 := by
    refine .of_empty (entryAt_zero key) fun who q s hcall => ?_
    rw [r.call?_zero] at hcall
    cases hcall
  exact h.later (Nat.le_refl 0) (Nat.zero_le t)

end Run

end CompiledViews
