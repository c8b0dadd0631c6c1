namespace Script

/-- Values by name, in the order in which the names were first entered. -/
abbrev Dictionary (α : Type) := List (String × α)

namespace Dictionary

variable {α : Type}

def get? : Dictionary α → String → Option α
  | [], _ => none
  | (key, value) :: rest, name => if key = name then some value else get? rest name

def has (d : Dictionary α) (name : String) : Bool := (d.get? name).isSome

/-- Replaces the value of a name where it stands, or enters the name at the end. -/
def insert : Dictionary α → String → α → Dictionary α
  | [], name, value => [(name, value)]
  | (key, old) :: rest, name, value =>
    if key = name then (key, value) :: rest else (key, old) :: insert rest name value

theorem get?_insert (d : Dictionary α) (name : String) (value : α) (other : String) :
    (d.insert name value).get? other = if name = other then some value else d.get? other := by
  induction d with
  | nil => simp [insert, get?]
  | cons entry rest ih =>
    obtain ⟨key, old⟩ := entry
    by_cases hk : key = name
    · subst hk
      by_cases ho : key = other <;> simp [insert, get?, ho]
    · by_cases ho : key = other
      · subst ho
        simp [insert, get?, hk, Ne.symm hk]
      · simp [insert, get?, hk, ho, ih]

theorem get?_of_insert {d : Dictionary α} {name other : String} {value found : α}
    (h : (d.insert name value).get? other = some found) :
    (name = other ∧ value = found) ∨ (name ≠ other ∧ d.get? other = some found) := by
  rw [get?_insert] at h
  split at h
  next hn => exact .inl ⟨hn, Option.some.inj h⟩
  next hn => exact .inr ⟨hn, h⟩

theorem mem_of_get? {d : Dictionary α} {name : String} {value : α}
    (h : d.get? name = some value) : (name, value) ∈ d := by
  induction d with
  | nil => cases h
  | cons entry rest ih =>
    obtain ⟨key, found⟩ := entry
    by_cases hk : key = name
    · obtain rfl : found = value := by simpa [get?, hk] using h
      simp [hk]
    · exact List.mem_cons_of_mem _ (ih (by simpa [get?, hk] using h))

def keys (d : Dictionary α) : List String := d.map Prod.fst

theorem keys_insert (d : Dictionary α) (name : String) (value : α) :
    (d.insert name value).keys = if d.has name then d.keys else d.keys ++ [name] := by
  induction d with
  | nil => rfl
  | cons entry rest ih =>
    obtain ⟨key, old⟩ := entry
    by_cases hk : key = name
    · simp [insert, has, get?, keys, hk]
    · have bound : has ((key, old) :: rest) name = has rest name := by simp [has, get?, hk]
      rw [bound]
      simp only [insert, if_neg hk]
      cases hr : has rest name <;> simp_all [keys]

theorem keys_prefix_insert (d : Dictionary α) (name : String) (value : α) :
    d.keys <+: (d.insert name value).keys := by
  rw [keys_insert]
  split
  · exact List.prefix_rfl
  · exact List.prefix_append _ _

def ofList (entries : List (String × α)) : Dictionary α :=
  entries.foldl (fun d (name, value) => d.insert name value) []

end Dictionary

end Script
