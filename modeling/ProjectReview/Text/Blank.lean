set_option autoImplicit false

/-! # Blanks and line boundaries

The blank characters of Unicode and the texts cut along them: `strip` removes the blanks at both
ends, `words` cuts at runs of blanks, and `textLines` cuts at every character that ends a line in
Unicode text, not at the line feed alone. `isBlank_of_isWhitespace` says that every blank of ASCII
text is one of them. -/

namespace ProjectReview

/-- The blank characters, as ranges of code points. -/
def blankRanges : List (Nat × Nat) :=
  [(0x9, 0xd), (0x1c, 0x20), (0x85, 0x85), (0xa0, 0xa0), (0x1680, 0x1680), (0x2000, 0x200a),
   (0x2028, 0x2029), (0x202f, 0x202f), (0x205f, 0x205f), (0x3000, 0x3000)]

/-- The code point lies in one of the ranges. -/
def inRanges (ranges : List (Nat × Nat)) (n : Nat) : Bool :=
  ranges.any fun range => decide (range.1 ≤ n) && decide (n ≤ range.2)

/-- The character is a blank. -/
def isBlank (c : Char) : Bool :=
  inRanges blankRanges c.toNat

theorem isBlank_of_isWhitespace (c : Char) (h : c.isWhitespace = true) : isBlank c = true := by
  simp only [Char.isWhitespace, Bool.or_eq_true, decide_eq_true_eq] at h
  rcases h with ((h | h) | h) | h <;> subst h <;> decide

/-- The blanks that are stripped around the digits of a number in pure ASCII text. -/
def isAsciiBlank (c : Char) : Bool :=
  c == ' ' || (decide (9 ≤ c.toNat) && decide (c.toNat ≤ 13))

/-- The list without the elements at its end that satisfy `p`. -/
def dropEndWhile (p : Char → Bool) (cs : List Char) : List Char :=
  (cs.reverse.dropWhile p).reverse

/-- The list without the elements at both ends that satisfy `p`. -/
def trimWhile (p : Char → Bool) (cs : List Char) : List Char :=
  dropEndWhile p (cs.dropWhile p)

/-- The text without blanks at either end. -/
def strip (s : String) : String :=
  String.ofList (trimWhile isBlank s.toList)

/-- The maximal runs of characters that do not satisfy `p`. -/
def runsBetween (p : Char → Bool) (cs : List Char) : List (List Char) :=
  let (run, runs) := cs.foldr (fun c (acc : List Char × List (List Char)) =>
    if p c then ([], if acc.1.isEmpty then acc.2 else acc.1 :: acc.2) else (c :: acc.1, acc.2))
    ([], [])
  if run.isEmpty then runs else run :: runs

/-- The words of a text: its maximal runs of characters that are not blank. -/
def words (s : String) : List String :=
  (runsBetween isBlank s.toList).map String.ofList

/-- The character ends a line of Unicode text. -/
def endsLine (c : Char) : Bool :=
  inRanges [(0xa, 0xd), (0x1c, 0x1e), (0x85, 0x85), (0x2028, 0x2029)] c.toNat

/-- The lines of Unicode text without their ends; a carriage return and the line feed after it end
one line together, and text that ends with a line end has no empty last line. -/
def textLinesOf : List Char → List (List Char)
  | [] => []
  | '\r' :: '\n' :: rest => [] :: textLinesOf rest
  | c :: rest =>
    if endsLine c then [] :: textLinesOf rest
    else match rest, textLinesOf rest with
      | [], _ => [[c]]
      | _ :: _, [] => [[c]]
      | _ :: _, line :: lines => (c :: line) :: lines

/-- The lines of Unicode text. -/
def textLines (s : String) : List String :=
  (textLinesOf s.toList).map String.ofList

/-- Every line end of a text file reads as a line feed: a carriage return and the line feed after
it, and a carriage return alone. -/
def unifyLineEnds : List Char → List Char
  | [] => []
  | '\r' :: '\n' :: rest => '\n' :: unifyLineEnds rest
  | c :: rest => (if c = '\r' then '\n' else c) :: unifyLineEnds rest

end ProjectReview
