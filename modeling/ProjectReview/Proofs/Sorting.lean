import Mathlib.Data.List.Sort
import Mathlib.Data.String.Basic
import ProjectReview.Order.StableSort

set_option autoImplicit false

/-! # What the stable sort does

`sortBy` is the insertion sort of the standard library (`sortBy_eq_insertionSort`), so its laws come
from there. `StableSorted le given sorted` says what a stable sort owes to its input: the same
elements, in ascending order, and elements that are level with each other in the order given. These
three leave no choice (`StableSorted.unique`), and `stableSorted_sortBy` says that `sortBy` meets
them for every total and transitive order. So what is given may be rearranged as long as level
elements keep their order (`sortBy_congr`).

Texts are ordered by `textLe`, which is the order of the standard library (`textLe_iff`); sorting
texts without repetitions gives a strictly ascending list (`pairwise_lt_sortTexts`). -/

namespace ProjectReview

section Sorting

variable {α : Type} (le : α → α → Bool)

theorem insertBy_eq_orderedInsert (x : α) (ys : List α) :
    insertBy le x ys = ys.orderedInsert (fun a b => le a b = true) x := by
  induction ys with
  | nil => rfl
  | cons y ys ih => rw [insertBy, List.orderedInsert_cons, ih]

theorem sortBy_eq_insertionSort (xs : List α) :
    sortBy le xs = xs.insertionSort (fun a b => le a b = true) := by
  induction xs with
  | nil => rfl
  | cons x xs ih => rw [sortBy, ih, insertBy_eq_orderedInsert, List.insertionSort_cons]

/-- Sorting rearranges. -/
theorem perm_sortBy (xs : List α) : (sortBy le xs).Perm xs := by
  rw [sortBy_eq_insertionSort]
  exact List.perm_insertionSort _ xs

/-- Elements that may stand in any order among themselves stay as they are. -/
theorem filter_sortBy (p : α → Bool) (xs : List α)
    (hlevel : ∀ a b, p a = true → p b = true → le a b = true) :
    (sortBy le xs).filter p = xs.filter p := by
  have hsub : (xs.filter p).Sublist (sortBy le xs) := by
    rw [sortBy_eq_insertionSort]
    apply List.sublist_insertionSort _ List.filter_sublist
    exact List.pairwise_of_forall_mem_list fun a ha b hb =>
      hlevel a b (List.mem_filter.1 ha).2 (List.mem_filter.1 hb).2
  have hsub' : (xs.filter p).Sublist ((sortBy le xs).filter p) := by
    simpa using hsub.filter p
  exact (hsub'.eq_of_length ((perm_sortBy le xs).filter p).length_eq.symm).symm

/-- `sorted` is the stable sort of `given`: its elements in ascending order, those level with each
    other in the order given. -/
structure StableSorted (given sorted : List α) : Prop where
  perm : sorted.Perm given
  ascending : sorted.Pairwise fun a b => le a b = true
  level : ∀ a, sorted.filter (fun b => le a b && le b a) = given.filter fun b => le a b && le b a

variable [Std.Total fun a b => le a b = true] [IsTrans α fun a b => le a b = true]

theorem pairwise_sortBy (xs : List α) : (sortBy le xs).Pairwise fun a b => le a b = true := by
  rw [sortBy_eq_insertionSort]
  exact List.pairwise_insertionSort _ xs

/-- **`sortBy` is a stable sort.** -/
theorem stableSorted_sortBy (xs : List α) : StableSorted le xs (sortBy le xs) where
  perm := perm_sortBy le xs
  ascending := pairwise_sortBy le xs
  level a := by
    apply filter_sortBy
    intro b c hb hc
    rw [Bool.and_eq_true] at hb hc
    exact IsTrans.trans (r := fun a b => le a b = true) b a c hb.2 hc.1

end Sorting

section Sorted

variable {α : Type} {le : α → α → Bool}

/-- A stable sort read backwards sorts the other way round what is given backwards. -/
theorem StableSorted.reverse {given sorted : List α}
    (h : StableSorted (fun a b => le b a) given sorted) :
    StableSorted le given.reverse sorted.reverse where
  perm := (List.reverse_perm sorted).trans (h.perm.trans (List.reverse_perm given).symm)
  ascending := List.pairwise_reverse.2 h.ascending
  level a := by
    have hlevel := h.level a
    simp only [Bool.and_comm (le _ a)] at hlevel
    rw [List.filter_reverse, List.filter_reverse, hlevel]

/-- **A list has one stable sort.** Of two of them, each has its least elements in front, and among
    these the order given. -/
theorem StableSorted.unique [Std.Total fun a b => le a b = true] {given sorted other : List α}
    (h : StableSorted le given sorted) (h' : StableSorted le given other) : sorted = other := by
  have hperm := h.perm.trans h'.perm.symm
  have hlevel := fun a => (h.level a).trans (h'.level a).symm
  have hsorted := h.ascending
  have hother := h'.ascending
  clear h h'
  induction sorted generalizing other with
  | nil => exact hperm.nil_eq
  | cons x xs ih =>
    cases other with
    | nil => exact absurd hperm.symm.nil_eq (by simp)
    | cons y ys =>
      rw [List.pairwise_cons] at hsorted hother
      have hself (a : α) : le a a = true :=
        (Std.Total.total (r := fun a b => le a b = true) a a).elim id id
      have hxy : le x y = true := by
        rcases List.mem_cons.1 (hperm.mem_iff.2 List.mem_cons_self) with rfl | hy
        · exact hself y
        · exact hsorted.1 y hy
      have hyx : le y x = true := by
        rcases List.mem_cons.1 (hperm.mem_iff.1 List.mem_cons_self) with rfl | hx
        · exact hself x
        · exact hother.1 x hx
      have hfront := hlevel x
      rw [List.filter_cons_of_pos (by simp [hself x]),
        List.filter_cons_of_pos (by simp [hxy, hyx])] at hfront
      obtain rfl : x = y := (List.cons.inj hfront).1
      rw [ih hperm.cons_inv (fun a => ?_) hsorted.2 hother.2]
      have hrest := hlevel a
      rw [List.filter_cons, List.filter_cons] at hrest
      split at hrest
      · exact (List.cons.inj hrest).2
      · exact hrest

/-- Lists with the same elements are sorted alike, if the elements that are level with each other
    stand in the same order in both. -/
theorem sortBy_congr [Std.Total fun a b => le a b = true] [IsTrans α fun a b => le a b = true]
    {xs ys : List α} (hperm : xs.Perm ys)
    (hlevel : ∀ a, xs.filter (fun b => le a b && le b a) = ys.filter fun b => le a b && le b a) :
    sortBy le xs = sortBy le ys := by
  have hys := stableSorted_sortBy le ys
  exact (stableSorted_sortBy le xs).unique
    ⟨hys.perm.trans hperm.symm, hys.ascending, fun a => (hys.level a).trans (hlevel a).symm⟩

end Sorted

/-! ## Texts -/

theorem textLe_iff (a b : String) : textLe a b = true ↔ a ≤ b := by
  rw [textLe, decide_eq_true_iff, not_lt]

instance : Std.Total fun a b => textLe a b = true where
  total a b := by
    simp only [textLe_iff]
    exact le_total a b

instance : IsTrans String fun a b => textLe a b = true where
  trans a b c := by
    simp only [textLe_iff]
    exact le_trans

theorem mem_sortTexts (x : String) (xs : List String) : x ∈ sortTexts xs ↔ x ∈ xs :=
  mem_sortBy textLe x xs

/-- Texts without repetitions are sorted into a strictly ascending list. -/
theorem pairwise_lt_sortTexts (xs : List String) (hnodup : xs.Nodup) :
    (sortTexts xs).Pairwise (· < ·) := by
  have hle := pairwise_sortBy textLe xs
  have hne : (sortTexts xs).Pairwise (· ≠ ·) := ((perm_sortBy textLe xs).nodup_iff).2 hnodup
  refine (hle.and hne).imp ?_
  rintro a b ⟨hab, hab'⟩
  exact lt_of_le_of_ne ((textLe_iff a b).1 hab) hab'

/-! ## Leaving out repetitions -/

section Distinct

variable {α : Type} [BEq α] [LawfulBEq α]

theorem foldl_distinct (xs seen : List α) (hseen : seen.Nodup) :
    let all := xs.foldl (fun seen x => if seen.contains x then seen else seen ++ [x]) seen
    all.Nodup ∧ ∀ a, a ∈ all ↔ a ∈ seen ∨ a ∈ xs := by
  induction xs generalizing seen with
  | nil => simpa using hseen
  | cons x xs ih =>
    simp only [List.foldl_cons]
    by_cases hx : x ∈ seen
    · rw [if_pos (List.contains_iff_mem.2 hx)]
      obtain ⟨hnodup, hmem⟩ := ih seen hseen
      refine ⟨hnodup, fun a => ?_⟩
      rw [hmem, List.mem_cons]
      constructor
      · rintro (h | h)
        · exact Or.inl h
        · exact Or.inr (Or.inr h)
      · rintro (h | rfl | h)
        · exact Or.inl h
        · exact Or.inl hx
        · exact Or.inr h
    · rw [if_neg (fun h => hx (List.contains_iff_mem.1 h))]
      have hnext : (seen ++ [x]).Nodup :=
        hseen.append (List.nodup_singleton x) (List.disjoint_singleton.2 hx)
      obtain ⟨hnodup, hmem⟩ := ih (seen ++ [x]) hnext
      refine ⟨hnodup, fun a => ?_⟩
      rw [hmem, List.mem_append, List.mem_singleton, List.mem_cons, or_assoc]

theorem nodup_distinct (xs : List α) : (distinct xs).Nodup :=
  (foldl_distinct xs [] List.nodup_nil).1

theorem mem_distinct (a : α) (xs : List α) : a ∈ distinct xs ↔ a ∈ xs := by
  have hmem := (foldl_distinct xs [] List.nodup_nil).2 a
  simpa [distinct] using hmem

end Distinct

end ProjectReview
