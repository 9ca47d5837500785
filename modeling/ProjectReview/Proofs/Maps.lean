import ProjectReview.Project.Delta
import ProjectReview.Proofs.Sorting

set_option autoImplicit false

/-! # Ordered maps by what they find

An `Assoc` is a list of entries, and most of its operations are those of lists. Here each of them is
described by what `get?` finds afterwards and by the keys it leaves. A map whose keys are distinct
is known by what it finds: `sortedEntries_congr` says that two such maps that find the same have the
same entries in ascending order of keys. -/

namespace ProjectReview

namespace Assoc

variable {α β : Type}

/-! ## Keys and entries -/

theorem get?_eq_none_iff (map : Assoc α) (key : String) : map.get? key = none ↔ key ∉ map.keys := by
  induction map with
  | nil => simp [get?, keys]
  | cons entry rest ih =>
    obtain ⟨k, v⟩ := entry
    simp only [keys] at ih
    by_cases hk : k = key
    · simp [get?, keys, hk]
    · simp [get?, keys, hk, ih, Ne.symm hk]

theorem mem_keys_iff (map : Assoc α) (key : String) :
    key ∈ map.keys ↔ ∃ value, map.get? key = some value := by
  rw [← Option.ne_none_iff_exists', Ne, get?_eq_none_iff, not_not]

theorem has_iff (map : Assoc α) (key : String) : map.has key = true ↔ key ∈ map.keys := by
  rw [has, Option.isSome_iff_exists, mem_keys_iff]

theorem mem_of_get? {map : Assoc α} {key : String} {value : α} (h : map.get? key = some value) :
    (key, value) ∈ map := by
  induction map with
  | nil => simp [get?] at h
  | cons entry rest ih =>
    obtain ⟨k, v⟩ := entry
    rw [get?] at h
    split at h
    · next hk =>
      obtain rfl : v = value := by simpa using h
      exact hk ▸ List.mem_cons_self ..
    · exact List.mem_cons_of_mem _ (ih h)

/-- With distinct keys, what a map finds is what it holds. -/
theorem get?_eq_some_iff {map : Assoc α} (hnodup : map.keys.Nodup) (key : String) (value : α) :
    map.get? key = some value ↔ (key, value) ∈ map := by
  refine ⟨mem_of_get?, fun hmem => ?_⟩
  have hkey : key ∈ map.keys := List.mem_map.2 ⟨_, hmem, rfl⟩
  obtain ⟨found, hfound⟩ := (mem_keys_iff map key).1 hkey
  have hsame := List.inj_on_of_nodup_map hnodup (mem_of_get? hfound) hmem rfl
  rw [hfound, (Prod.mk.inj hsame).2]

theorem get?_append (a b : Assoc α) (key : String) :
    get? (a ++ b) key = (a.get? key).or (b.get? key) := by
  induction a with
  | nil => rfl
  | cons entry rest ih =>
    obtain ⟨k, v⟩ := entry
    by_cases hk : k = key
    · simp [get?, hk]
    · simpa [get?, hk] using ih

theorem get?_filter (p : String → Bool) (map : Assoc α) (key : String) :
    get? (map.filter fun entry => p entry.1) key = if p key then map.get? key else none := by
  induction map with
  | nil => simp [get?]
  | cons entry rest ih =>
    obtain ⟨k, v⟩ := entry
    by_cases hk : k = key
    · subst hk
      by_cases hp : p k = true
      · simp [get?, hp]
      · simpa [List.filter_cons, get?, hp] using ih
    · by_cases hp : p k = true
      · simpa [List.filter_cons, get?, hp, hk] using ih
      · simpa [List.filter_cons, get?, hp, hk] using ih

theorem get?_mapValues (f : α → β) (map : Assoc α) (key : String) :
    get? (map.map fun entry => (entry.1, f entry.2)) key = (map.get? key).map f := by
  induction map with
  | nil => rfl
  | cons entry rest ih =>
    obtain ⟨k, v⟩ := entry
    by_cases hk : k = key
    · simp [get?, hk]
    · simpa [get?, hk] using ih

theorem keys_mapValues (f : α → β) (map : Assoc α) :
    keys (map.map fun entry => (entry.1, f entry.2)) = map.keys := by
  simp [keys, List.map_map, Function.comp_def]

/-- A map with distinct keys finds the same in whatever order its entries stand. -/
theorem get?_congr_perm {a b : Assoc α} (hperm : a.Perm b) (hnodup : b.keys.Nodup) (key : String) :
    a.get? key = b.get? key := by
  have hkeys : a.keys.Nodup := (hperm.map Prod.fst).nodup_iff.2 hnodup
  apply Option.ext
  intro value
  rw [get?_eq_some_iff hkeys, get?_eq_some_iff hnodup, hperm.mem_iff]

/-! ## Setting and erasing -/

theorem nodup_keys_set {map : Assoc α} (hnodup : map.keys.Nodup) (key : String) (value : α) :
    (map.set key value).keys.Nodup := by
  rw [keys_set]
  split
  · exact hnodup
  · next hkey => exact hnodup.append (List.nodup_singleton key) (List.disjoint_singleton.2 hkey)

theorem nodup_keys_filter {map : Assoc α} (hnodup : map.keys.Nodup) (p : String × α → Bool) :
    (keys (map.filter p)).Nodup :=
  hnodup.sublist (List.filter_sublist.map Prod.fst)

theorem nodup_keys_foldl_erase (removed : List String) {map : Assoc α} (hnodup : map.keys.Nodup) :
    (removed.foldl erase map).keys.Nodup := by
  induction removed generalizing map with
  | nil => exact hnodup
  | cons path rest ih => exact ih (nodup_keys_filter hnodup _)

theorem get?_foldl_erase (removed : List String) (map : Assoc α) (key : String) :
    (removed.foldl erase map).get? key = if key ∈ removed then none else map.get? key := by
  induction removed generalizing map with
  | nil => simp
  | cons path rest ih =>
    rw [List.foldl_cons, ih, get?_erase]
    by_cases hrest : key ∈ rest
    · simp [hrest]
    · by_cases hpath : path = key
      · simp [hrest, hpath]
      · simp [hrest, hpath, Ne.symm hpath]

theorem nodup_keys_foldl_set (entries : List (String × α)) {map : Assoc α}
    (hnodup : map.keys.Nodup) :
    (entries.foldl (fun map entry => set map entry.1 entry.2) map).keys.Nodup := by
  induction entries generalizing map with
  | nil => exact hnodup
  | cons entry rest ih => exact ih (nodup_keys_set hnodup _ _)

theorem nodup_keys_ofEntries (entries : List (String × α)) : (ofEntries entries).keys.Nodup :=
  nodup_keys_foldl_set entries List.nodup_nil

/-- Later entries count before earlier ones, and those before what the map held. -/
theorem get?_foldl_set_reverse (entries : List (String × α)) (map : Assoc α) (key : String) :
    (entries.foldl (fun map entry => set map entry.1 entry.2) map).get? key
      = (get? entries.reverse key).or (map.get? key) := by
  induction entries generalizing map with
  | nil => rfl
  | cons entry rest ih =>
    rw [List.foldl_cons, ih, get?_set, List.reverse_cons, get?_append]
    by_cases hk : entry.1 = key
    · simp [get?, hk]
    · simp [get?, hk]

theorem get?_ofEntries (entries : List (String × α)) (key : String) :
    (ofEntries entries).get? key = get? entries.reverse key := by
  rw [ofEntries, get?_foldl_set_reverse, get?_nil, Option.or_none]

theorem get?_foldl_set (entries : List (String × α)) (map : Assoc α) (key : String) :
    (entries.foldl (fun map entry => set map entry.1 entry.2) map).get? key
      = ((ofEntries entries).get? key).or (map.get? key) := by
  rw [get?_foldl_set_reverse, get?_ofEntries]

theorem get?_ofEntries_mapValues (f : α → β) (entries : List (String × α)) (key : String) :
    (ofEntries (entries.map fun entry => (entry.1, f entry.2))).get? key
      = ((ofEntries entries).get? key).map f := by
  rw [get?_ofEntries, get?_ofEntries, ← get?_mapValues, List.map_reverse]

theorem mem_of_get?_ofEntries {entries : List (String × α)} {key : String} {value : α}
    (h : (ofEntries entries).get? key = some value) : (key, value) ∈ entries := by
  rw [get?_ofEntries] at h
  exact List.mem_reverse.1 (mem_of_get? h)

/-- An entry whose key comes only later is put last. -/
theorem set_of_nodup {front rest : Assoc α} {entry : String × α}
    (h : (keys (front ++ entry :: rest)).Nodup) : front.set entry.1 entry.2 = front ++ [entry] := by
  induction front with
  | nil => rfl
  | cons first front ih =>
    rw [List.cons_append, keys, List.map_cons, List.nodup_cons] at h
    have hkey : first.1 ≠ entry.1 := by
      rintro heq
      exact h.1 (by simp [heq])
    rw [set, if_neg hkey, ih h.2, List.cons_append]

/-- A list of entries with distinct keys is already the map of its entries. -/
theorem ofEntries_of_nodup (entries : Assoc α) (hnodup : entries.keys.Nodup) :
    ofEntries entries = entries := by
  have hfold : ∀ (rest front : Assoc α), (keys (front ++ rest)).Nodup →
      rest.foldl (fun map entry => set map entry.1 entry.2) front = front ++ rest := by
    intro rest
    induction rest with
    | nil => intro front _; simp
    | cons entry rest ih =>
      intro front hfront
      rw [List.foldl_cons, set_of_nodup hfront, ih]
      · simp
      · simpa using hfront
  exact hfold entries [] hnodup

end Assoc

/-! ## Entries in ascending order -/

section SortedEntries

variable {α : Type}

instance : Std.Total fun a b : String × α => textLe a.1 b.1 = true where
  total a b := Std.Total.total (r := fun a b => textLe a b = true) a.1 b.1

instance : IsTrans (String × α) fun a b => textLe a.1 b.1 = true where
  trans a b c := IsTrans.trans (r := fun a b => textLe a b = true) a.1 b.1 c.1

theorem perm_sortedEntries (map : Assoc α) : (Project.sortedEntries map).Perm map :=
  perm_sortBy _ map

theorem nodup_keys_sortedEntries {map : Assoc α} (hnodup : map.keys.Nodup) :
    (Assoc.keys (Project.sortedEntries map)).Nodup :=
  ((perm_sortedEntries map).map Prod.fst).nodup_iff.2 hnodup

theorem get?_sortedEntries {map : Assoc α} (hnodup : map.keys.Nodup) (key : String) :
    Assoc.get? (Project.sortedEntries map) key = map.get? key :=
  Assoc.get?_congr_perm (perm_sortedEntries map) hnodup key

/-- The entries of a map are put in strictly ascending order of keys. -/
theorem pairwise_lt_sortedEntries {map : Assoc α} (hnodup : map.keys.Nodup) :
    (Project.sortedEntries map).Pairwise fun a b => a.1 < b.1 := by
  have hle := pairwise_sortBy (fun a b : String × α => textLe a.1 b.1) map
  have hne : (Project.sortedEntries map).Pairwise fun a b => a.1 ≠ b.1 :=
    List.pairwise_map.1 (nodup_keys_sortedEntries hnodup)
  refine (hle.and hne).imp ?_
  rintro a b ⟨hab, hab'⟩
  exact lt_of_le_of_ne ((textLe_iff _ _).1 hab) hab'

/-- Entries in strictly ascending order of keys are known by what they find. -/
theorem eq_of_get?_eq {a b : Assoc α} (ha : a.Pairwise fun x y => x.1 < y.1)
    (hb : b.Pairwise fun x y => x.1 < y.1) (h : ∀ key, a.get? key = b.get? key) : a = b := by
  have hnodup : ∀ map : Assoc α, map.Pairwise (fun x y => x.1 < y.1) → map.keys.Nodup :=
    fun map hmap => List.pairwise_map.2 (hmap.imp fun hlt => ne_of_lt hlt)
  have : Std.Antisymm fun x y : String × α => x.1 < y.1 := ⟨fun x y hxy hyx => absurd hyx hxy.asymm⟩
  have : Std.Irrefl fun x y : String × α => x.1 < y.1 := ⟨fun x => lt_irrefl x.1⟩
  apply ha.eq_of_mem_iff hb
  rintro ⟨key, value⟩
  rw [← Assoc.get?_eq_some_iff (hnodup a ha), ← Assoc.get?_eq_some_iff (hnodup b hb), h]

/-- **Maps that find the same have the same entries**, put in ascending order of keys. -/
theorem sortedEntries_congr {a b : Assoc α} (ha : a.keys.Nodup) (hb : b.keys.Nodup)
    (h : ∀ key, a.get? key = b.get? key) : Project.sortedEntries a = Project.sortedEntries b := by
  apply eq_of_get?_eq (pairwise_lt_sortedEntries ha) (pairwise_lt_sortedEntries hb)
  intro key
  rw [get?_sortedEntries ha, get?_sortedEntries hb, h]

end SortedEntries

end ProjectReview
