set_option autoImplicit false

/-! # Ordered maps

An `Assoc α` maps texts to values and remembers the order in which its keys first arrived. `set`
replaces the value of a known key where it stands and puts a new key at the end; `erase` removes a
key. Reports, configurations and caches are of this kind, since the order of their keys can be seen.

The operations are described by what `get?` finds after them (`get?_set`, `get?_erase`) and by the
keys they leave (`keys_set`). -/

namespace ProjectReview

/-- A map from texts that keeps the order of arrival of its keys. -/
abbrev Assoc (α : Type) := List (String × α)

namespace Assoc

variable {α β : Type}

/-- The value of a key. -/
def get? (map : Assoc α) (key : String) : Option α :=
  match map with
  | [] => none
  | (k, v) :: rest => if k = key then some v else get? rest key

/-- The key is known. -/
def has (map : Assoc α) (key : String) : Bool :=
  (map.get? key).isSome

/-- The keys in their order. -/
def keys (map : Assoc α) : List String :=
  map.map (·.1)

/-- The map with `value` at `key`: in place if the key is known, at the end if not. -/
def set (map : Assoc α) (key : String) (value : α) : Assoc α :=
  match map with
  | [] => [(key, value)]
  | (k, v) :: rest => if k = key then (k, value) :: rest else (k, v) :: set rest key value

/-- The map without a key. -/
def erase (map : Assoc α) (key : String) : Assoc α :=
  map.filter fun entry => decide (entry.1 ≠ key)

/-- The map of a list of entries; of entries with one key the last gives the value and the first the
place. -/
def ofEntries (entries : List (String × α)) : Assoc α :=
  entries.foldl (fun map entry => set map entry.1 entry.2) []

theorem get?_nil (key : String) : get? ([] : Assoc α) key = none := rfl

theorem get?_set (map : Assoc α) (key other : String) (value : α) :
    (map.set key value).get? other = if key = other then some value else map.get? other := by
  induction map with
  | nil => simp [set, get?]
  | cons entry rest ih =>
    obtain ⟨k, v⟩ := entry
    simp only [set]
    split
    · next h => subst h; by_cases ho : k = other <;> simp [get?, ho]
    · next h =>
      simp only [get?, ih]
      by_cases hk : k = other
      · have : ¬ key = other := fun e => h (hk.trans e.symm)
        simp [hk, this]
      · simp [hk]

theorem get?_erase (map : Assoc α) (key other : String) :
    (map.erase key).get? other = if key = other then none else map.get? other := by
  induction map with
  | nil => simp [erase, get?]
  | cons entry rest ih =>
    obtain ⟨k, v⟩ := entry
    simp only [erase] at ih
    by_cases hk : k = key
    · subst hk
      simp only [erase, ne_eq, not_true, decide_false, List.filter_cons_of_neg,
        Bool.false_eq_true, not_false_eq_true, ih]
      by_cases ho : k = other <;> simp [get?, ho]
    · simp only [erase, ne_eq, hk, not_false_eq_true, decide_true, List.filter_cons_of_pos, get?, ih]
      by_cases ho : k = other
      · have : ¬ key = other := fun e => hk (ho.trans e.symm)
        simp [ho, this]
      · simp [ho]

theorem set_set (map : Assoc α) (key : String) (first second : α) :
    (map.set key first).set key second = map.set key second := by
  induction map with
  | nil => simp [set]
  | cons entry rest ih =>
    obtain ⟨k, v⟩ := entry
    by_cases hk : k = key
    · simp [set, hk]
    · simp [set, hk, ih]

theorem set_eq_self {map : Assoc α} {key : String} {value : α} (h : map.get? key = some value) :
    map.set key value = map := by
  induction map with
  | nil => cases h
  | cons entry rest ih =>
    obtain ⟨k, v⟩ := entry
    by_cases hk : k = key
    · simpa [set, get?, hk] using h.symm
    · have hrest : Assoc.get? rest key = some value := by simpa [get?, hk] using h
      simp [set, hk, ih hrest]

/-- Setting a key keeps the order of the known keys and puts an unknown one last. -/
theorem keys_set (map : Assoc α) (key : String) (value : α) :
    (map.set key value).keys = if key ∈ map.keys then map.keys else map.keys ++ [key] := by
  induction map with
  | nil => simp [set, keys]
  | cons entry rest ih =>
    obtain ⟨k, v⟩ := entry
    simp only [keys] at ih
    simp only [set, keys, List.map_cons, List.mem_cons]
    split
    · next h => simp [h]
    · next h =>
      have h' : ¬ key = k := fun e => h e.symm
      simp only [List.map_cons, ih, h', false_or]
      split <;> simp_all

end Assoc

end ProjectReview
