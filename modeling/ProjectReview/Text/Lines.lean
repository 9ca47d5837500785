set_option autoImplicit false

/-! # Cutting text at a character

`cutAt c s` is the list of pieces of `s` between the occurrences of `c`: there is always at least
one piece, and an occurrence at the end leaves an empty last piece. `joinWith c` puts the pieces
back together. The lines of a source are its pieces at the line feed.

`joinWith_cutAt` says that joining undoes cutting, so a text and its lines carry the same
information. -/

namespace ProjectReview

/-- The pieces between the occurrences of `c`; never the empty list. -/
def cutAt (c : Char) : List Char → List (List Char)
  | [] => [[]]
  | x :: xs =>
    if x = c then [] :: cutAt c xs
    else match cutAt c xs with
      | [] => [[x]]
      | piece :: rest => (x :: piece) :: rest

/-- The pieces with one `c` between neighbours. -/
def joinWith (c : Char) : List (List Char) → List Char
  | [] => []
  | [piece] => piece
  | piece :: rest => piece ++ c :: joinWith c rest

theorem cutAt_ne_nil (c : Char) (s : List Char) : cutAt c s ≠ [] := by
  cases s with
  | nil => simp [cutAt]
  | cons x xs =>
    rw [cutAt]
    split
    · simp
    · split <;> simp

@[simp] theorem joinWith_cons_of_ne_nil (c : Char) (piece : List Char) (rest : List (List Char))
    (h : rest ≠ []) : joinWith c (piece :: rest) = piece ++ c :: joinWith c rest := by
  cases rest with
  | nil => exact absurd rfl h
  | cons => rfl

/-- Joining undoes cutting. -/
@[simp] theorem joinWith_cutAt (c : Char) (s : List Char) : joinWith c (cutAt c s) = s := by
  induction s with
  | nil => rfl
  | cons x xs ih =>
    rw [cutAt]
    split
    · next h => simp [cutAt_ne_nil, ih, h]
    · split
      · next h => exact absurd h (cutAt_ne_nil c xs)
      · next piece rest h =>
        rw [h] at ih
        cases rest with
        | nil => simp_all [joinWith]
        | cons => simp_all [joinWith]

/-- Text around an occurrence of `c` is cut there. -/
theorem cutAt_append_cons (c : Char) (before after : List Char) :
    cutAt c (before ++ c :: after) = cutAt c before ++ cutAt c after := by
  induction before with
  | nil => simp [cutAt]
  | cons x xs ih =>
    rw [List.cons_append, cutAt, ih, cutAt]
    split
    · rfl
    · cases h : cutAt c xs with
      | nil => exact absurd h (cutAt_ne_nil c xs)
      | cons piece rest => rfl

/-- The lines of a text: its pieces at the line feed. -/
def linesOf (s : String) : List (List Char) :=
  cutAt '\n' s.toList

/-- The text with the given lines. -/
def ofLines (lines : List (List Char)) : String :=
  String.ofList (joinWith '\n' lines)

@[simp] theorem ofLines_linesOf (s : String) : ofLines (linesOf s) = s := by
  simp [ofLines, linesOf]

/-- The pieces of a text at a character, as texts. -/
def piecesAt (c : Char) (s : String) : List String :=
  (cutAt c s.toList).map String.ofList

/-- The texts with `sep` between neighbours. -/
def joinTexts (sep : String) : List String → String
  | [] => ""
  | [s] => s
  | s :: rest => s ++ sep ++ joinTexts sep rest

end ProjectReview
