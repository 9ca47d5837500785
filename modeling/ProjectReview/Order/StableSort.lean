set_option autoImplicit false

/-! # Stable sorting

`sortBy le xs` arranges `xs` in ascending order of `le` and keeps the given order of elements that
`le` puts level with each other. `sortTexts` is the order of texts by code point that every list of
paths in this library is shown in, and `distinct` keeps the first of equal elements.

The sort inserts each element, last one first, in front of the first element it may precede; that
choice is what makes it stable. `mem_sortBy` and `length_sortBy` say that nothing is lost or added.
-/

namespace ProjectReview

section Sorting

variable {α : Type}

/-- Puts `x` in front of the first element it may precede. -/
def insertBy (le : α → α → Bool) (x : α) : List α → List α
  | [] => [x]
  | y :: ys => if le x y then x :: y :: ys else y :: insertBy le x ys

/-- The elements in ascending order; level elements keep their given order. -/
def sortBy (le : α → α → Bool) : List α → List α
  | [] => []
  | x :: xs => insertBy le x (sortBy le xs)

theorem mem_insertBy (le : α → α → Bool) (a x : α) (ys : List α) :
    a ∈ insertBy le x ys ↔ a = x ∨ a ∈ ys := by
  induction ys with
  | nil => simp [insertBy]
  | cons y ys ih =>
    rw [insertBy]
    split
    · simp
    · simp only [List.mem_cons, ih]
      exact ⟨fun h => h.elim (fun h => .inr (.inl h)) (fun h => h.elim .inl (fun h => .inr (.inr h))),
        fun h => h.elim (fun h => .inr (.inl h)) (fun h => h.elim .inl (fun h => .inr (.inr h)))⟩

/-- Sorting keeps exactly the elements it is given. -/
theorem mem_sortBy (le : α → α → Bool) (a : α) (xs : List α) : a ∈ sortBy le xs ↔ a ∈ xs := by
  induction xs with
  | nil => simp [sortBy]
  | cons x xs ih => simp [sortBy, mem_insertBy, ih]

theorem length_insertBy (le : α → α → Bool) (x : α) (ys : List α) :
    (insertBy le x ys).length = ys.length + 1 := by
  induction ys with
  | nil => simp [insertBy]
  | cons y ys ih =>
    rw [insertBy]
    split
    · simp
    · simp [ih]

theorem length_sortBy (le : α → α → Bool) (xs : List α) : (sortBy le xs).length = xs.length := by
  induction xs with
  | nil => rfl
  | cons x xs ih => simp [sortBy, length_insertBy, ih]

end Sorting

/-- Texts are ordered by the code points of their characters. -/
def textLe (a b : String) : Bool :=
  decide (¬ b < a)

/-- The texts in ascending order of code points. -/
def sortTexts (xs : List String) : List String :=
  sortBy textLe xs

/-- The elements without repetitions, each at the place where it first occurs. -/
def distinct {α : Type} [BEq α] (xs : List α) : List α :=
  xs.foldl (fun seen x => if seen.contains x then seen else seen ++ [x]) []

end ProjectReview
