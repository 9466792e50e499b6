/-! Environments: variables with their values. -/

namespace CompiledViews

/-- The variables that are set. Of two entries of one name the first counts. -/
structure Environment where
  entries : List (String × String) := []
  deriving Repr, DecidableEq

namespace Environment

def get? (e : Environment) (name : String) : Option String :=
  (e.entries.find? (·.1 = name)).map (·.2)

/-- Sets a variable, unless it is set. -/
def setDefault (e : Environment) (name value : String) : Environment :=
  if (e.get? name).isSome then e else ⟨e.entries ++ [(name, value)]⟩

theorem get?_setDefault (e : Environment) (name value other : String) :
    (e.setDefault name value).get? other =
      (e.get? other).or (if name = other then some value else none) := by
  unfold setDefault
  split
  · rename_i h
    by_cases ho : name = other
    · subst ho
      obtain ⟨v, hv⟩ := Option.isSome_iff_exists.1 h
      simp [hv]
    · simp [ho]
  · by_cases ho : name = other <;> cases h : e.entries.find? (·.1 = other) <;>
      simp [get?, List.find?_append, ho, h]

end Environment

end CompiledViews
