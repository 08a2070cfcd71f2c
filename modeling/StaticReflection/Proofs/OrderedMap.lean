import StaticReflection.OrderedMap

namespace StaticReflection.OrderedMap

variable {κ α : Type} [DecidableEq κ]

/-! What the operations on a map do to the values that are found. -/

@[simp] theorem find?_empty (key : κ) : ({} : OrderedMap κ α).find? key = none := rfl

private theorem lookup_append_single (entries : List (κ × α)) (key other : κ) (value : α)
    (absent : entries.lookup key = none) :
    (entries ++ [(key, value)]).lookup other =
      if other = key then some value else entries.lookup other := by
  rw [List.lookup_append, List.lookup_cons, List.lookup_nil]
  by_cases same : other = key
  · subst same
    simp [absent]
  · have differs : (other == key) = false := by simpa using same
    simp [same, differs]

private theorem lookup_replace (entries : List (κ × α)) (key other : κ) (value : α) :
    (replace key value entries).lookup other =
      if other = key then (entries.lookup key).map fun _ => value
      else entries.lookup other := by
  induction entries with
  | nil => simp [replace]
  | cons entry rest ih =>
      obtain ⟨entryKey, entryValue⟩ := entry
      simp only [replace, List.map_cons] at ih ⊢
      by_cases atKey : entryKey = key
      · subst atKey
        by_cases same : other = entryKey
        · simp [same]
        · have differs : (other == entryKey) = false := by simpa using same
          simpa [List.lookup_cons, same, differs] using ih
      · have keyDiffers : (key == entryKey) = false := by simpa using Ne.symm atKey
        simp only [atKey, if_false, List.lookup_cons]
        cases otherAtEntry : other == entryKey with
        | true =>
            have apart : other ≠ key := by
              intro same
              simp [same, keyDiffers] at otherAtEntry
            simp [apart]
        | false => simpa [keyDiffers] using ih

theorem find?_insert (map : OrderedMap κ α) (key other : κ) (value : α) :
    (map.insert key value).find? other =
      if other = key then some value else map.find? other := by
  unfold insert contains find?
  cases found : map.entries.lookup key with
  | none => simpa using lookup_append_single map.entries key other value found
  | some earlier => simp [lookup_replace, found]

theorem find?_insertNew (map : OrderedMap κ α) (key other : κ) (value : α) :
    (map.insertNew key value).find? other =
      if other = key ∧ map.find? key = none then some value else map.find? other := by
  unfold insertNew contains find?
  cases found : map.entries.lookup key with
  | none =>
      simpa using lookup_append_single map.entries key other value found
  | some earlier => simp

/-- What a map gives for a key, a larger one gives too. -/
def Within (map larger : OrderedMap κ α) : Prop :=
  ∀ key value, map.find? key = some value → larger.find? key = some value

theorem within_refl (map : OrderedMap κ α) : map.Within map :=
  fun _ _ found => found

theorem Within.trans {a b c : OrderedMap κ α} (first : a.Within b) (second : b.Within c) :
    a.Within c :=
  fun key value found => second key value (first key value found)

theorem within_insertNew (map : OrderedMap κ α) (key : κ) (value : α) :
    map.Within (map.insertNew key value) := by
  intro other earlier found
  rw [find?_insertNew, if_neg]
  · exact found
  · rintro ⟨rfl, absent⟩
    rw [absent] at found
    cases found

end StaticReflection.OrderedMap
