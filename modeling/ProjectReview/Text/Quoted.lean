import ProjectReview.Text.Printable

set_option autoImplicit false

/-! # Quoted text

`quoted s` shows a text between quotes so that every character can be told apart: single quotes, or
double quotes when the text holds a single quote and no double quote. The backslash and the quote in
use are escaped, the tab and the two line ends have short escapes, and every other character that is
not printable is shown by its code point in two, four or eight hexadecimal digits. -/

namespace ProjectReview

/-- The hexadecimal digit, in lower case. -/
def hexDigit (n : Nat) : Char :=
  if n < 10 then Char.ofNat (48 + n) else Char.ofNat (87 + n)

/-- The last `width` hexadecimal digits of a number. -/
def hexDigits : Nat → Nat → List Char
  | 0, _ => []
  | width + 1, n => hexDigits width (n / 16) ++ [hexDigit (n % 16)]

/-- The double quote. -/
def doubleQuote : Char := '\x22'

/-- The single quote. -/
def singleQuote : Char := '\x27'

/-- The backslash. -/
def backslash : Char := '\x5c'

/-- One character inside quotes. -/
def quotedChar (quote c : Char) : List Char :=
  if c = quote ∨ c = backslash then [backslash, c]
  else if c = '\t' then [backslash, 't']
  else if c = '\n' then [backslash, 'n']
  else if c = '\r' then [backslash, 'r']
  else if isPrintable c then [c]
  else if c.toNat < 0x100 then backslash :: 'x' :: hexDigits 2 c.toNat
  else if c.toNat < 0x10000 then backslash :: 'u' :: hexDigits 4 c.toNat
  else backslash :: 'U' :: hexDigits 8 c.toNat

/-- The quote a text is shown in. -/
def quoteFor (cs : List Char) : Char :=
  if cs.contains singleQuote && !cs.contains doubleQuote then doubleQuote else singleQuote

/-- The text between quotes. -/
def quoted (s : String) : String :=
  let quote := quoteFor s.toList
  String.ofList (quote :: s.toList.flatMap (quotedChar quote) ++ [quote])

end ProjectReview
