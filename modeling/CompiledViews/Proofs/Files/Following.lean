import CompiledViews.Proofs.Except
import CompiledViews.Proofs.Files.Discovery

/-! Where paths lead. What comes later in a path is followed from where the path leads so far, with
the links that are left; and however many links may be followed, a path leads nowhere else. -/

namespace CompiledViews

open CompiledViews.Path

namespace FileNode

variable {t : FileNode} {allowed : Location → Bool} {links links' : ℕ} {at_ at' : Location}
  {cs : List Component} {e : FileNode} {entries : List (String × FileNode)} {name : String}
  {names : List String}

section Get

lemma get?_append (t : FileNode) (location below : Location) :
    t.get? (location ++ below) = (t.get? location).bind (·.get? below) := by
  induction location generalizing t with
  | nil => rfl
  | cons name names ih =>
    cases t with
    | file bytes => rfl
    | link target => rfl
    | dir entries =>
      rw [List.cons_append, get?, get?, Option.bind_assoc]
      congr 1
      funext e
      exact ih e

/-- At a location stands one directory at most. -/
lemma entries_unique {entries' : List (String × FileNode)} (h : t.get? at_ = some (.dir entries))
    (h' : t.get? at_ = some (.dir entries')) : entries = entries' :=
  dir.inj (Option.some.inj (h.symm.trans h'))

/-- What stands at a location with a last name stands in the directory above. -/
lemma get?_concat_eq_some_iff : t.get? (at_ ++ [name]) = some e ↔
    ∃ entries, t.get? at_ = some (.dir entries) ∧ child? entries name = some e := by
  have hname : ∀ part : FileNode, part.get? [name] = some e ↔
      ∃ entries, part = .dir entries ∧ child? entries name = some e := by
    intro part
    cases part with
    | file bytes => simp [get?]
    | link target => simp [get?]
    | dir entries =>
      rw [get?]
      cases hchild : child? entries name <;> simp [get?, hchild]
  rw [get?_append, Option.bind_eq_some_iff]
  simp only [hname]
  constructor
  · rintro ⟨part, hpart, entries, rfl, hchild⟩
    exact ⟨entries, hpart, hchild⟩
  · rintro ⟨entries, hget, hchild⟩
    exact ⟨_, hget, entries, rfl, hchild⟩

/-- A file or a directory stands at a location, and not a link. -/
def Stands (t : FileNode) (location : Location) : Prop :=
  ∃ e, t.get? location = some e ∧ ∀ target, e ≠ .link target

lemma stands_of_dir (h : t.get? at_ = some (.dir entries)) : t.Stands at_ :=
  ⟨_, h, (by simp)⟩

lemma Stands.dropLast (h : t.Stands at_) : t.Stands at_.dropLast := by
  cases at_ using List.reverseRecOn with
  | nil => exact h
  | append_singleton names name =>
    obtain ⟨e, he, -⟩ := h
    obtain ⟨entries, hget, -⟩ := get?_concat_eq_some_iff.mp he
    rw [List.dropLast_concat]
    exact stands_of_dir hget

lemma Stands.root (h : t.Stands at_) : t.Stands [] := by
  cases at_ with
  | nil => exact h
  | cons name names =>
    obtain ⟨e, he, -⟩ := h
    cases t with
    | dir entries => exact stands_of_dir rfl
    | _ => cases he

end Get

section Follow

/-- Components lead from one location to another when the links are followed on the way, by names
that are all looked up where it is allowed; so many links may be followed before, and so many
after. -/
inductive Leads (t : FileNode) (allowed : Location → Bool) :
    ℕ → Location → List Component → ℕ → Location → Prop
  | stay {links : ℕ} {at_ : Location} : Leads t allowed links at_ [] links at_
  | root {links links' : ℕ} {at_ at' : Location} {cs : List Component}
      (hrest : Leads t allowed links [] cs links' at') :
      Leads t allowed links at_ (.root :: cs) links' at'
  | here {links links' : ℕ} {at_ at' : Location} {cs : List Component}
      {entries : List (String × FileNode)} (hdir : t.get? at_ = some (.dir entries))
      (hrest : Leads t allowed links at_ cs links' at') :
      Leads t allowed links at_ (.here :: cs) links' at'
  | up {links links' : ℕ} {at_ at' : Location} {cs : List Component}
      {entries : List (String × FileNode)} (hdir : t.get? at_ = some (.dir entries))
      (hrest : Leads t allowed links at_.dropLast cs links' at') :
      Leads t allowed links at_ (.up :: cs) links' at'
  | name {links links' : ℕ} {at_ at' : Location} {s : String} {cs : List Component} {e : FileNode}
      {entries : List (String × FileNode)} (hallowed : allowed (at_ ++ [s]) = true)
      (hdir : t.get? at_ = some (.dir entries)) (hshort : Text.Utf8.size s ≤ maxNameBytes)
      (hchild : child? entries s = some e) (he : ∀ target, e ≠ .link target)
      (hrest : Leads t allowed links (at_ ++ [s]) cs links' at') :
      Leads t allowed links at_ (.name s :: cs) links' at'
  | link {links links' : ℕ} {at_ at' : Location} {s target : String} {cs : List Component}
      {entries : List (String × FileNode)} (hallowed : allowed (at_ ++ [s]) = true)
      (hdir : t.get? at_ = some (.dir entries)) (hshort : Text.Utf8.size s ≤ maxNameBytes)
      (hchild : child? entries s = some (.link target)) (hne : target.isEmpty = false)
      (hrest : Leads t allowed links at_ (steps target ++ cs) links' at') :
      Leads t allowed (links + 1) at_ (.name s :: cs) links' at'

theorem exists_leads_of_follow (h : t.follow allowed links at_ cs = .ok at') :
    ∃ links', t.Leads allowed links at_ cs links' at' := by
  fun_induction follow t allowed links at_ cs with
  | case1 links at_ => exact ⟨links, Except.ok.inj h ▸ .stay⟩
  | case2 links at_ cs ih => exact (ih h).imp fun _ => .root
  | case3 links at_ cs entries hdir ih => exact (ih h).imp fun _ => .here hdir
  | case5 links at_ cs entries hdir ih => exact (ih h).imp fun _ => .up hdir
  | case12 at_ s cs hallowed entries hdir hshort target hchild hne links ih =>
    exact (ih h).imp fun _ =>
      .link (eq_true_of_ne_false hallowed) hdir (Nat.not_lt.mp hshort) hchild
        (Bool.eq_false_iff.mpr hne)
  | case13 links at_ s cs hallowed entries hdir hshort e he hchild ih =>
    exact (ih h).imp fun _ =>
      .name (eq_true_of_ne_false hallowed) hdir (Nat.not_lt.mp hshort) hchild he
  | _ => cases h

namespace Leads

theorem append {links'' : ℕ} {at'' : Location} {cs' : List Component}
    (h : t.Leads allowed links at_ cs links' at')
    (h' : t.Leads allowed links' at' cs' links'' at'') :
    t.Leads allowed links at_ (cs ++ cs') links'' at'' := by
  induction h with
  | stay => exact h'
  | root _ ih => exact .root (ih h')
  | here hdir _ ih => exact .here hdir (ih h')
  | up hdir _ ih => exact .up hdir (ih h')
  | name hallowed hdir hshort hchild he _ ih =>
    exact .name hallowed hdir hshort hchild he (ih h')
  | link hallowed hdir hshort hchild hne _ ih =>
    exact .link hallowed hdir hshort hchild hne (List.append_assoc .. ▸ ih h')

/-- What components lead to is reached by way of what the first of them lead to. -/
theorem exists_of_append {cs' : List Component}
    (h : t.Leads allowed links at_ (cs ++ cs') links' at') :
    ∃ between mid, t.Leads allowed links at_ cs between mid ∧
      t.Leads allowed between mid cs' links' at' := by
  generalize hall : cs ++ cs' = all at h
  induction h generalizing cs with
  | stay =>
    obtain ⟨rfl, rfl⟩ := List.append_eq_nil_iff.mp hall
    exact ⟨_, _, .stay, .stay⟩
  | root hrest ih =>
    rcases List.append_eq_cons_iff.mp hall with ⟨rfl, rfl⟩ | ⟨cs, rfl, rfl⟩
    · exact ⟨_, _, .stay, .root hrest⟩
    · obtain ⟨between, mid, hfirst, hthen⟩ := ih rfl
      exact ⟨between, mid, .root hfirst, hthen⟩
  | here hdir hrest ih =>
    rcases List.append_eq_cons_iff.mp hall with ⟨rfl, rfl⟩ | ⟨cs, rfl, rfl⟩
    · exact ⟨_, _, .stay, .here hdir hrest⟩
    · obtain ⟨between, mid, hfirst, hthen⟩ := ih rfl
      exact ⟨between, mid, .here hdir hfirst, hthen⟩
  | up hdir hrest ih =>
    rcases List.append_eq_cons_iff.mp hall with ⟨rfl, rfl⟩ | ⟨cs, rfl, rfl⟩
    · exact ⟨_, _, .stay, .up hdir hrest⟩
    · obtain ⟨between, mid, hfirst, hthen⟩ := ih rfl
      exact ⟨between, mid, .up hdir hfirst, hthen⟩
  | name hallowed hdir hshort hchild he hrest ih =>
    rcases List.append_eq_cons_iff.mp hall with ⟨rfl, rfl⟩ | ⟨cs, rfl, rfl⟩
    · exact ⟨_, _, .stay, .name hallowed hdir hshort hchild he hrest⟩
    · obtain ⟨between, mid, hfirst, hthen⟩ := ih rfl
      exact ⟨between, mid, .name hallowed hdir hshort hchild he hfirst, hthen⟩
  | link hallowed hdir hshort hchild hne hrest ih =>
    rcases List.append_eq_cons_iff.mp hall with ⟨rfl, rfl⟩ | ⟨cs, rfl, rfl⟩
    · exact ⟨_, _, .stay, .link hallowed hdir hshort hchild hne hrest⟩
    · obtain ⟨between, mid, hfirst, hthen⟩ := ih (List.append_assoc ..)
      exact ⟨between, mid, .link hallowed hdir hshort hchild hne hfirst, hthen⟩

/-- What comes after is followed from where the first components lead, with the links that are
left. -/
theorem follow_append (h : t.Leads allowed links at_ cs links' at') (cs' : List Component) :
    t.follow allowed links at_ (cs ++ cs') = t.follow allowed links' at' cs' := by
  induction h with
  | stay => rfl
  | root _ ih =>
    rw [List.cons_append, follow]
    exact ih
  | here hdir _ ih =>
    rw [List.cons_append, follow, hdir]
    exact ih
  | up hdir _ ih =>
    rw [List.cons_append, follow, hdir]
    exact ih
  | name hallowed hdir hshort hchild he _ ih =>
    rw [List.cons_append, follow, if_neg (ne_false_of_eq_true hallowed), hdir]
    simpa only [if_neg (Nat.not_lt.mpr hshort), hchild] using ih
  | link hallowed hdir hshort hchild hne _ ih =>
    rw [List.cons_append, follow, if_neg (ne_false_of_eq_true hallowed), hdir]
    simpa only [if_neg (Nat.not_lt.mpr hshort), hchild, hne, Bool.false_eq_true, if_false,
      List.append_assoc] using ih

/-- No link stands where components lead to from where none stands. -/
theorem stands (h : t.Leads allowed links at_ cs links' at') (hat : t.Stands at_) :
    t.Stands at' := by
  induction h with
  | stay => exact hat
  | root _ ih => exact ih hat.root
  | here _ _ ih => exact ih hat
  | up _ _ ih => exact ih hat.dropLast
  | name _ hdir _ hchild he _ ih => exact ih ⟨_, get?_concat_eq_some_iff.mpr ⟨_, hdir, hchild⟩, he⟩
  | link _ _ _ _ _ _ ih => exact ih hat

/-- However many links may be followed, components lead to nothing else; but they may be too few. -/
theorem follow_eq_or (h : t.Leads allowed links at_ cs links' at') (more : ℕ) :
    t.follow allowed more at_ cs = .ok at' ∨
      more < links ∧ t.follow allowed more at_ cs = .error .tooManyLinks := by
  induction h generalizing more with
  | stay => exact .inl (by rw [follow])
  | root _ ih =>
    rw [follow]
    exact ih more
  | here hdir _ ih =>
    rw [follow, hdir]
    exact ih more
  | up hdir _ ih =>
    rw [follow, hdir]
    exact ih more
  | name hallowed hdir hshort hchild he _ ih =>
    rw [follow, if_neg (ne_false_of_eq_true hallowed), hdir]
    simpa only [if_neg (Nat.not_lt.mpr hshort), hchild] using ih more
  | link hallowed hdir hshort hchild hne _ ih =>
    rw [follow, if_neg (ne_false_of_eq_true hallowed), hdir]
    simp only [if_neg (Nat.not_lt.mpr hshort), hchild, hne]
    cases more with
    | zero => exact .inr ⟨Nat.succ_pos _, rfl⟩
    | succ more => exact (ih more).imp_right fun h => ⟨Nat.succ_lt_succ h.1, h.2⟩

theorem follow_eq (h : t.Leads allowed links at_ cs links' at') :
    t.follow allowed links at_ cs = .ok at' :=
  (h.follow_eq_or links).resolve_right fun hless => Nat.lt_irrefl _ hless.1

/-- What may be followed beyond is left. -/
theorem add (h : t.Leads allowed links at_ cs links' at') (more : ℕ) :
    t.Leads allowed (links + more) at_ cs (links' + more) at' := by
  induction h with
  | stay => exact .stay
  | root _ ih => exact .root ih
  | here hdir _ ih => exact .here hdir ih
  | up hdir _ ih => exact .up hdir ih
  | name hallowed hdir hshort hchild he _ ih => exact .name hallowed hdir hshort hchild he ih
  | link hallowed hdir hshort hchild hne _ ih =>
    exact Nat.add_right_comm .. ▸ .link hallowed hdir hshort hchild hne ih

/-- Where more is allowed, components lead to the same. -/
theorem mono {allowed' : Location → Bool} (h : t.Leads allowed links at_ cs links' at')
    (hall : ∀ location, allowed location = true → allowed' location = true) :
    t.Leads allowed' links at_ cs links' at' := by
  induction h with
  | stay => exact .stay
  | root _ ih => exact .root ih
  | here hdir _ ih => exact .here hdir ih
  | up hdir _ ih => exact .up hdir ih
  | name hallowed hdir hshort hchild he _ ih =>
    exact .name (hall _ hallowed) hdir hshort hchild he ih
  | link hallowed hdir hshort hchild hne _ ih =>
    exact .link (hall _ hallowed) hdir hshort hchild hne ih

/-- A name leads on from a directory that has it. -/
theorem exists_dir (h : t.Leads allowed links at_ (.name name :: cs) links' at') :
    ∃ entries e, t.get? at_ = some (.dir entries) ∧ child? entries name = some e := by
  cases h with
  | name _ hdir _ hchild => exact ⟨_, _, hdir, hchild⟩
  | link _ hdir _ hchild => exact ⟨_, _, hdir, hchild⟩

lemma of_here (h : t.Leads allowed links at_ [.here] links' at') :
    t.Leads allowed links at_ [] links' at' := by
  cases h with
  | here _ hrest => exact hrest

/-- The steps along a path lead where its components do, and a directory is there if the path asks
for one. -/
lemma of_steps {path : String} (h : t.Leads allowed links at_ (steps path) links' at') :
    t.Leads allowed links at_ (components path) links' at' := by
  obtain ⟨between, mid, hcomponents, hend⟩ := exists_of_append h
  have hidle : t.Leads allowed between mid [] links' at' := by
    split at hend
    · exact hend.of_here
    · exact hend.of_here
    · exact hend
  exact List.append_nil (components path) ▸ hcomponents.append hidle

lemma steps_of_dir {path : String} (h : t.Leads allowed links at_ (components path) links' at')
    (hdir : t.get? at' = some (.dir entries)) :
    t.Leads allowed links at_ (steps path) links' at' := by
  rw [steps]
  refine h.append ?_
  split
  · exact .here hdir .stay
  · exact .here hdir .stay
  · exact .stay

end Leads

end Follow

section Names

/-- Names lead from one location to another, however many links are on the way. -/
def LeadTo (t : FileNode) (at_ : Location) (names : List String) (at' : Location) : Prop :=
  ∃ links, t.follow (fun _ => true) links at_ (names.map .name) = .ok at'

theorem LeadTo.unique {at'' : Location} (h : t.LeadTo at_ names at')
    (h' : t.LeadTo at_ names at'') : at' = at'' := by
  obtain ⟨links, hfollow⟩ := h
  obtain ⟨more, hfollow'⟩ := h'
  obtain ⟨links', hleads⟩ := exists_leads_of_follow hfollow
  rcases hleads.follow_eq_or more with hsame | ⟨-, htoo⟩
  · exact Except.ok.inj (hsame.symm.trans hfollow')
  · cases htoo.symm.trans hfollow'

lemma leadTo_nil : t.LeadTo at_ [] at' ↔ at_ = at' := by
  simp [LeadTo, follow]

/-- Names lead on from where the first of them leads. -/
theorem leadTo_append {front back : List String} : t.LeadTo at_ (front ++ back) at' ↔
    ∃ mid, t.LeadTo at_ front mid ∧ t.LeadTo mid back at' := by
  simp only [LeadTo, List.map_append]
  constructor
  · rintro ⟨links, hfollow⟩
    obtain ⟨links', hleads⟩ := exists_leads_of_follow hfollow
    obtain ⟨between, mid, hfirst, hthen⟩ := hleads.exists_of_append
    exact ⟨mid, ⟨links, hfirst.follow_eq⟩, between, hthen.follow_eq⟩
  · rintro ⟨mid, ⟨links, hfirst⟩, more, hthen⟩
    obtain ⟨left, hfirst⟩ := exists_leads_of_follow hfirst
    obtain ⟨links', hthen⟩ := exists_leads_of_follow hthen
    -- the links for the second part are left over after the first
    have hrest := (Nat.add_comm more left) ▸ hthen.add left
    exact ⟨links + more, ((hfirst.add more).append hrest).follow_eq⟩

lemma leadTo_cons : t.LeadTo at_ (name :: names) at' ↔
    ∃ mid, t.LeadTo at_ [name] mid ∧ t.LeadTo mid names at' := by
  rw [← List.singleton_append, leadTo_append]

/-- A name leads on from a directory that has it. -/
lemma LeadTo.exists_child (h : t.LeadTo at_ (name :: names) at') :
    ∃ entries e, t.get? at_ = some (.dir entries) ∧ child? entries name = some e := by
  obtain ⟨links, hfollow⟩ := h
  obtain ⟨links', hleads⟩ := exists_leads_of_follow hfollow
  exact hleads.exists_dir

/-- What is no link is where its name leads. -/
lemma leadTo_of_child (hdir : t.get? at_ = some (.dir entries))
    (hshort : Text.Utf8.size name ≤ maxNameBytes) (hchild : child? entries name = some e)
    (he : ∀ target, e ≠ .link target) : t.LeadTo at_ [name] (at_ ++ [name]) :=
  ⟨0, (Leads.name rfl hdir hshort hchild he .stay).follow_eq⟩

/-- No link stands where names lead to from a directory. -/
lemma LeadTo.stands (h : t.LeadTo at_ names at') (hdir : t.get? at_ = some (.dir entries)) :
    t.Stands at' := by
  obtain ⟨links, hfollow⟩ := h
  obtain ⟨links', hleads⟩ := exists_leads_of_follow hfollow
  exact hleads.stands (stands_of_dir hdir)

end Names

end FileNode

namespace FileTree

open FileNode (maxLinks maxNameBytes child?)

variable {t : FileTree} {at_ at' : Location} {e : FileNode} {entries : List (String × FileNode)}
  {path name : String} {names : List String}

section Refusal

lemma ne_empty_of_refusal? (h : refusal? path = none) : path ≠ "" := by
  rintro rfl
  cases h

lemma refusal?_eq_none_iff : refusal? path = none ↔
    path ≠ "" ∧ '\x00' ∉ path.toList ∧ Text.Utf8.size path ≤ maxPathBytes := by
  rw [refusal?]
  by_cases hempty : path = ""
  · simp [hempty]
  · by_cases hnull : '\x00' ∈ path.toList
    · simp [hempty, hnull]
    · by_cases hlong : maxPathBytes < Text.Utf8.size path
      · simp [hempty, hnull, hlong]
      · simp [hempty, hnull, hlong, Nat.not_lt.mp hlong]

lemma exists_toList_join (hpath : path ≠ "") (hname : IsName name) :
    ∃ front : List Char, (join path name).toList = front ++ '/' :: name.toList ∧
      front <+: path.toList := by
  have habsolute : isAbsolute name = false :=
    Component.LeadsOn.isAbsolute_text (c := .name name) hname
  rw [join, habsolute, Bool.false_or, if_neg (by simpa using hpath)]
  split
  case isTrue hend =>
    obtain ⟨front, hfront⟩ := List.getLast?_eq_some_iff.mp hend
    exact ⟨front, by simp [hfront], hfront ▸ List.prefix_append _ _⟩
  case isFalse => exact ⟨path.toList, by simp, List.prefix_rfl⟩

lemma join_ne_empty (hpath : path ≠ "") (hname : IsName name) : join path name ≠ "" := by
  obtain ⟨front, hfront, -⟩ := exists_toList_join hpath hname
  exact fun he => by simp [he] at hfront

/-- A path below one that the system takes is refused only when it is too long. -/
theorem refusal?_join (hpath : refusal? path = none) (hname : IsName name)
    (hnull : '\x00' ∉ name.toList) :
    refusal? (join path name) = none ∨ refusal? (join path name) = some .nameTooLong := by
  obtain ⟨hne, hplain, -⟩ := refusal?_eq_none_iff.mp hpath
  obtain ⟨front, hfront, hsub⟩ := exists_toList_join hne hname
  have hjoin : '\x00' ∉ (join path name).toList := by
    rw [hfront, List.mem_append, List.mem_cons]
    rintro (h | h | h)
    · exact hplain (hsub.subset h)
    · exact absurd h (by decide)
    · exact hnull h
  rw [refusal?, if_neg (by simpa using join_ne_empty hne hname), if_neg (by simpa using hjoin)]
  split
  · exact .inr rfl
  · exact .inl rfl

lemma size_join_le (hpath : path ≠ "") (hname : IsName name) :
    Text.Utf8.size (join path name) ≤ Text.Utf8.size path + 1 + Text.Utf8.size name := by
  obtain ⟨front, hfront, rest, hrest⟩ := exists_toList_join hpath hname
  have hslash : Text.Utf8.encodeChar '/' = [47] := by decide
  simp only [Text.Utf8.size, Text.Utf8.encode, hfront, ← hrest, List.flatMap_append,
    List.flatMap_cons, hslash, List.length_append, List.length_singleton]
  omega

theorem refusal?_join_of_size_le (hpath : refusal? path = none) (hname : IsName name)
    (hnull : '\x00' ∉ name.toList)
    (hsize : Text.Utf8.size path + 1 + Text.Utf8.size name ≤ maxPathBytes) :
    refusal? (join path name) = none := by
  have hne := ne_empty_of_refusal? hpath
  refine (refusal?_join hpath hname hnull).resolve_right fun hlong => ?_
  rw [refusal?, if_neg (by simpa using join_ne_empty hne hname)] at hlong
  split at hlong
  case isTrue => cases hlong
  case isFalse =>
    rw [if_neg (Nat.not_lt.mpr (Nat.le_trans (size_join_le hne hname) hsize))] at hlong
    cases hlong

end Refusal

section Locate

lemma locate_eq_ok_iff : t.locate path = .ok at_ ↔
    refusal? path = none ∧ t.follow (steps path) = .ok at_ := by
  rw [locate]
  cases refusal? path <;> simp

lemma locate_of_leads {links : ℕ} (cs : List Component) (hfits : refusal? path = none)
    (hsteps : steps path = cs) (h : t.root.Leads (fun _ => true) maxLinks t.home cs links at_) :
    t.locate path = .ok at_ :=
  locate_eq_ok_iff.mpr ⟨hfits, hsteps ▸ h.follow_eq⟩

/-- A path that leads somewhere by way of short paths leads there too when it is resolved name by
name. -/
theorem resolved_of_leads {links : ℕ} (cs : List Component) (hfits : refusal? path = none)
    (hsteps : steps path = cs) (h : t.root.Leads isShort maxLinks t.home cs links at_)
    (hshort : isShort at_ = true) : t.locate path = .ok at_ ∧ t.canonicalize path = .ok at_ := by
  refine ⟨locate_of_leads cs hfits hsteps (h.mono fun _ _ => rfl), ?_⟩
  rw [canonicalize, hfits, hsteps]
  simp only [h.follow_eq, Except.ok_bind, hshort, if_true]
  rfl

/-- A path that ends in a name asks for nothing but its components. -/
lemma steps_of_isName (hname : IsName name)
    (h : (Text.splitList isSlash path.toList).getLast? = some name.toList) :
    steps path = components path := by
  have hempty : name.toList ≠ [] := fun he => hname.ne_empty (String.toList_inj.mp he)
  have hhere : name.toList ≠ ['.'] := fun he => hname.ne_here (String.toList_inj.mp he)
  rw [steps, h]
  split
  · exact absurd (Option.some.inj ‹_›) hempty
  · exact absurd (Option.some.inj ‹_›) hhere
  · exact List.append_nil _

lemma steps_join (hpath : path ≠ "") (hname : IsName name) :
    steps (join path name) = components path ++ [.name name] := by
  have hsplit : Text.splitList isSlash name.toList = [name.toList] :=
    Component.LeadsOn.splitList_text (c := .name name) hname
  have hlast : (Text.splitList isSlash (join path name).toList).getLast? = some name.toList := by
    obtain ⟨front, hfront, -⟩ := exists_toList_join hpath hname
    rw [hfront, Text.splitList_append_sep (by decide), hsplit]
    exact List.getLast?_concat ..
  rw [steps_of_isName hname hlast]
  exact components_join path (c := .name name) hname

lemma pathBelow_ne_empty (hpath : path ≠ "") (h : ∀ n ∈ names, IsName n) :
    pathBelow path names ≠ "" := by
  induction names generalizing path with
  | nil => exact hpath
  | cons name names ih =>
    rw [List.forall_mem_cons] at h
    exact ih (join_ne_empty hpath h.1) h.2

/-- Names below a path are followed after the path itself. -/
theorem steps_pathBelow (hpath : path ≠ "") (hne : names ≠ []) (h : ∀ n ∈ names, IsName n) :
    steps (pathBelow path names) = components path ++ names.map .name := by
  obtain ⟨names, last, rfl⟩ := (List.eq_nil_or_concat' names).resolve_left hne
  have hlast := List.forall_mem_append.mp h
  have hjoin : pathBelow path (names ++ [last]) = join (pathBelow path names) last :=
    List.foldl_concat ..
  rw [hjoin, steps_join (pathBelow_ne_empty hpath hlast.1) (hlast.2 last (by simp)),
    components_pathBelow path hlast.1, List.append_assoc, List.map_append]
  rfl

lemma find_eq_ok_iff : t.find path = .ok e ↔
    ∃ location, t.locate path = .ok location ∧ t.root.get? location = some e := by
  rw [find, Except.bind_eq_ok_iff]
  refine exists_congr fun location => and_congr_right' ?_
  cases t.root.get? location with
  | none => exact iff_of_false (fun h => by cases h) (fun h => by cases h)
  | some part =>
    exact ⟨fun h => congrArg some (Except.ok.inj h), fun h => congrArg _ (Option.some.inj h)⟩

lemma isDir_iff : t.isDir path ↔
    ∃ location entries, t.locate path = .ok location ∧
      t.root.get? location = some (.dir entries) := by
  refine ⟨fun h => ?_, fun ⟨_, _, hlocate, hget⟩ => isDir_of_locate hlocate hget⟩
  rw [isDir] at h
  split at h
  case h_1 entries hfind =>
    obtain ⟨location, hlocate, hget⟩ := find_eq_ok_iff.mp hfind
    exact ⟨location, entries, hlocate, hget⟩
  case h_2 => cases h

/-- Names below a path are followed from where the path leads, with the links that are left. -/
theorem exists_links_of_locate (hat : t.locate path = .ok at_) : ∃ links, ∀ names, names ≠ [] →
    (∀ n ∈ names, IsName n) → refusal? (pathBelow path names) = none →
      t.locate (pathBelow path names) =
        t.root.follow (fun _ => true) links at_ (names.map .name) := by
  obtain ⟨hpath, hfollow⟩ := locate_eq_ok_iff.mp hat
  obtain ⟨links, hsteps⟩ := FileNode.exists_leads_of_follow hfollow
  refine ⟨links, fun names hne hnames hbelow => ?_⟩
  rw [locate, hbelow, steps_pathBelow (ne_empty_of_refusal? hpath) hne hnames]
  exact hsteps.of_steps.follow_append _

/-- What names below a path lead to is led to from where the path leads. -/
theorem leadTo_of_locate (hat : t.locate path = .ok at_) (hnames : ∀ n ∈ names, IsName n)
    (h : t.locate (pathBelow path names) = .ok at') : t.root.LeadTo at_ names at' := by
  by_cases hne : names = []
  · obtain rfl := hne
    exact FileNode.leadTo_nil.mpr (Except.ok.inj (hat.symm.trans h))
  · obtain ⟨links, hlinks⟩ := exists_links_of_locate hat
    exact ⟨links, (hlinks names hne hnames (locate_eq_ok_iff.mp h).1).symm.trans h⟩

/-- The system refuses a path because it is too long, or leads through too many links. -/
def IsLimit (error : SystemError) : Prop := error = .tooManyLinks ∨ error = .nameTooLong

/-- A name below a path leads where it leads from where the path does, if the path that this makes
is short, and the links on the way are not too many. -/
theorem locate_join_eq_or (hat : t.locate path = .ok at_) (hname : IsName name)
    (hnull : '\x00' ∉ name.toList) (h : t.root.LeadTo at_ [name] at') :
    t.locate (join path name) = .ok at' ∨
      ∃ error, IsLimit error ∧ t.locate (join path name) = .error error := by
  obtain ⟨links, hfollow⟩ := h
  obtain ⟨links', hleads⟩ := FileNode.exists_leads_of_follow hfollow
  rcases refusal?_join (locate_eq_ok_iff.mp hat).1 hname hnull with hfits | hlong
  · obtain ⟨left, hleft⟩ := exists_links_of_locate hat
    have hjoin : t.locate (join path name) =
        t.root.follow (fun _ => true) left at_ [.name name] :=
      hleft [name] (List.cons_ne_nil name []) (List.forall_mem_singleton.mpr hname) hfits
    rw [hjoin]
    exact (hleads.follow_eq_or left).imp_right fun htoo => ⟨_, .inl rfl, htoo.2⟩
  · exact .inr ⟨_, .inr rfl, by rw [locate, hlong]⟩

/-- What is no link is found below the path of the directory that it is in. -/
theorem locate_join_of_child (hat : t.locate path = .ok at_) (hname : IsName name)
    (hfits : refusal? (join path name) = none) (hshort : Text.Utf8.size name ≤ maxNameBytes)
    (hdir : t.root.get? at_ = some (.dir entries)) (hchild : child? entries name = some e)
    (he : ∀ target, e ≠ .link target) : t.locate (join path name) = .ok (at_ ++ [name]) := by
  obtain ⟨links, hlinks⟩ := exists_links_of_locate hat
  refine (hlinks [name] (List.cons_ne_nil name []) (List.forall_mem_singleton.mpr hname)
    hfits).trans ?_
  exact (FileNode.Leads.name rfl hdir hshort hchild he .stay).follow_eq

end Locate

section Here

/-- Where one is. -/
lemma locate_here (hdir : t.root.get? t.home = some (.dir entries)) :
    t.locate "." = .ok t.home := by
  have hsteps : steps "." = [.here, .here] := by decide +kernel
  have hfits : refusal? "." = none := by decide +kernel
  rw [locate, hfits, hsteps]
  simp [follow, FileNode.follow, hdir]

lemma steps_name (hname : IsName name) : steps name = [.name name] := by
  have hlast : (Text.splitList isSlash name.toList).getLast? = some name.toList :=
    congrArg List.getLast? (Component.LeadsOn.splitList_text (c := .name name) hname)
  rw [steps_of_isName hname hlast]
  exact components_text (c := .name name) hname

/-- A name leads to what is right below. -/
theorem resolved_name (hname : IsName name) (hfits : refusal? name = none)
    (hshort : Text.Utf8.size name ≤ maxNameBytes) (hpath : isShort (t.home ++ [name]) = true)
    (hdir : t.root.get? t.home = some (.dir entries)) (hchild : child? entries name = some e)
    (he : ∀ target, e ≠ .link target) :
    t.locate name = .ok (t.home ++ [name]) ∧ t.canonicalize name = .ok (t.home ++ [name]) :=
  resolved_of_leads _ hfits (steps_name hname) (.name hpath hdir hshort hchild he .stay) hpath

/-- A name that nothing has is no directory's. -/
theorem isDir_name_of_no_child (hname : IsName name)
    (hdir : t.root.get? t.home = some (.dir entries)) (hchild : child? entries name = none) :
    t.isDir name = false := by
  have hfails : ∃ e, t.locate name = .error e := by
    rw [locate]
    cases refusal? name with
    | some e => exact ⟨e, rfl⟩
    | none =>
      rw [steps_name hname, follow, FileNode.follow, hdir]
      by_cases hlong : maxNameBytes < Text.Utf8.size name
      · exact ⟨.nameTooLong, by simp [hlong]⟩
      · exact ⟨.notFound, by simp [hlong, hchild]⟩
  obtain ⟨e, he⟩ := hfails
  rw [isDir, find, he]
  rfl

/-- What a directory has under a name is found there. -/
theorem find_here_of_child (hname : IsName name) (hfits : refusal? (join "." name) = none)
    (hshort : Text.Utf8.size name ≤ maxNameBytes) (hdir : t.root.get? t.home = some (.dir entries))
    (hchild : child? entries name = some e) (he : ∀ target, e ≠ .link target) :
    t.find (join "." name) = .ok e :=
  find_eq_ok_iff.mpr ⟨t.home ++ [name],
    locate_join_of_child (locate_here hdir) hname hfits hshort hdir hchild he,
    FileNode.get?_concat_eq_some_iff.mpr ⟨entries, hdir, hchild⟩⟩

theorem find_here_of_no_child (hname : IsName name) (hfits : refusal? (join "." name) = none)
    (hshort : Text.Utf8.size name ≤ maxNameBytes) (hdir : t.root.get? t.home = some (.dir entries))
    (hchild : child? entries name = none) : t.find (join "." name) = .error .notFound := by
  have hhere : components "." = [.here] := by decide +kernel
  have hlocate : t.locate (join "." name) = .error .notFound := by
    rw [locate, hfits, steps_join (by decide) hname, hhere]
    simp [follow, FileNode.follow, hdir, Nat.not_lt.mpr hshort, hchild]
  rw [find, hlocate]
  rfl

end Here

end FileTree

end CompiledViews
