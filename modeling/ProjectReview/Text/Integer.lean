import ProjectReview.Text.Digit
import ProjectReview.Text.Quoted

set_option autoImplicit false

/-! # Reading integers from text

`readInteger` reads an integer the way a person may type it: blanks around it, a sign, decimal
digits of any script, and single underscores between digits. In text that is all ASCII only the
blanks of ASCII are passed over. A number may have at most `digitLimit` digits; a longer one is
refused before what follows it is looked at. -/

namespace ProjectReview

/-- The greatest number of digits an integer is read with. -/
def digitLimit : Nat := 4300

/-- Why a text is not read as an integer. -/
inductive IntegerFault where
  /-- The text is not an integer. -/
  | malformed (text : String)
  /-- The integer has too many digits. -/
  | tooLong (digits : Nat)
deriving DecidableEq, Repr

namespace IntegerFault

/-- The wording of a refusal; a text is shown by the first 200 characters of its quoted form. -/
def message : IntegerFault → String
  | malformed text =>
    "invalid literal for int() with base 10: " ++ String.ofList ((quoted text).toList.take 200)
  | tooLong digits =>
    "Exceeds the limit (" ++ toString digitLimit ++
      " digits) for integer string conversion: value has " ++ toString digits ++
      " digits; use sys.set_int_max_str_digits() to increase the limit"

end IntegerFault

/-- A character as a numeral sees it: a blank of any script is a space and a digit of any script is
its ASCII digit. -/
def numeralChar (c : Char) : Char :=
  if c.toNat < 127 then c
  else if isBlank c then ' '
  else match digitValue? c with
    | some d => Char.ofNat (48 + d)
    | none => '?'

/-- The value of an ASCII digit. -/
def asciiDigit? (c : Char) : Option Nat :=
  if decide (48 ≤ c.toNat) && decide (c.toNat ≤ 57) then some (c.toNat - 48) else none

/-- Reads digits with single underscores between them: the digits' values and what follows them, or
`none` when an underscore is not between two digits. `afterDigit` says whether the character before
is a digit. -/
def digitRun : Bool → List Char → Option (List Nat × List Char)
  | afterDigit, [] => if afterDigit then some ([], []) else none
  | afterDigit, c :: rest =>
    match asciiDigit? c with
    | some d => (digitRun true rest).map fun (ds, after) => (d :: ds, after)
    | none =>
      if c = '_' then (if afterDigit then digitRun false rest else none)
      else if afterDigit then some ([], c :: rest) else none

/-- The number with the given decimal digits, the first one the highest. -/
def ofDigits (ds : List Nat) : Nat :=
  ds.foldl (fun n d => 10 * n + d) 0

/-- The sign of a numeral and what follows it. -/
def signOf : List Char → Bool × List Char
  | '-' :: rest => (true, rest)
  | '+' :: rest => (false, rest)
  | rest => (false, rest)

/-- Reads an integer from a text. -/
def readInteger (text : String) : Except IntegerFault Int :=
  let (negative, body) := signOf ((text.toList.map numeralChar).dropWhile isAsciiBlank)
  match digitRun false body with
  | none => .error (.malformed text)
  | some (ds, after) =>
    if ds.length > digitLimit then .error (.tooLong ds.length)
    else if (after.dropWhile isAsciiBlank).isEmpty then
      .ok (if negative then -(ofDigits ds : Int) else ofDigits ds)
    else .error (.malformed text)

end ProjectReview
