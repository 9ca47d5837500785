import ProjectReview.Data.Value
import ProjectReview.Text.Integer

set_option autoImplicit false

/-! # Reading JSON documents

`Json.read` reads a JSON document into a `Value`. It accepts the standard grammar and the three
numbers `NaN`, `Infinity` and `-Infinity`; a numeral without fraction and exponent is an integer of
any size up to `digitLimit` digits. When a key occurs twice its last value stands at its first
place. A document that does not match the grammar is refused with the first offending place.

The readers take a `Cursor`, the characters still to come with their position, and return the value
read with the cursor behind it. `valueAt` spends one unit of fuel per nested value or member, and
`read` supplies twice the length of the document, which no document can use up. -/

namespace ProjectReview.Json

/-- What is wrong with a document. -/
inductive Problem where
  | expectingValue
  | expectingKey
  | expectingColon
  | expectingComma
  | unterminatedText
  | controlCharacter
  | invalidEscape
  | invalidUnicodeEscape
  | extraData
  | byteOrderMark
deriving DecidableEq, Repr

namespace Problem

/-- The wording of a problem. -/
def message : Problem → String
  | expectingValue => "Expecting value"
  | expectingKey => "Expecting property name enclosed in double quotes"
  | expectingColon => "Expecting ':' delimiter"
  | expectingComma => "Expecting ',' delimiter"
  | unterminatedText => "Unterminated string starting at"
  | controlCharacter => "Invalid control character at"
  | invalidEscape => "Invalid \\escape"
  | invalidUnicodeEscape => "Invalid \\uXXXX escape"
  | extraData => "Extra data"
  | byteOrderMark => "Unexpected UTF-8 BOM (decode using utf-8-sig)"

end Problem

/-- Why a document is refused. -/
inductive Fault where
  /-- The document breaks the grammar at a position. -/
  | malformed (problem : Problem) (position : Nat)
  /-- An integer in the document has too many digits. -/
  | number (fault : IntegerFault)
deriving DecidableEq, Repr

/-- The line and the column, both from one, of a position in a document. -/
def lineColumn (document : List Char) (position : Nat) : Nat × Nat :=
  let before := document.take position
  (before.count '\n' + 1, (before.reverse.takeWhile (· ≠ '\n')).length + 1)

namespace Fault

/-- The wording of a refusal of a document. -/
def message (document : String) : Fault → String
  | malformed problem position =>
    let (line, column) := lineColumn document.toList position
    problem.message ++ ": line " ++ toString line ++ " column " ++ toString column ++ " (char " ++
      toString position ++ ")"
  | number fault => fault.message

end Fault

/-- The characters still to be read and the position of the first of them. -/
structure Cursor where
  position : Nat
  rest : List Char
deriving DecidableEq, Repr

/-- A blank between the tokens of a document. -/
def isSpace (c : Char) : Bool :=
  c == ' ' || c == '\t' || c == '\n' || c == '\r'

/-- Passes over blanks. -/
def skipSpace : Nat → List Char → Cursor
  | position, [] => ⟨position, []⟩
  | position, c :: rest => if isSpace c then skipSpace (position + 1) rest else ⟨position, c :: rest⟩

/-- The cursor behind the blanks. -/
def Cursor.skip (cursor : Cursor) : Cursor :=
  skipSpace cursor.position cursor.rest

/-- The value of a hexadecimal digit. -/
def hexValue? (c : Char) : Option Nat :=
  let n := c.toNat
  if 48 ≤ n ∧ n ≤ 57 then some (n - 48)
  else if 97 ≤ n ∧ n ≤ 102 then some (n - 87)
  else if 65 ≤ n ∧ n ≤ 70 then some (n - 55)
  else none

/-- The number given by the first four characters as hexadecimal digits. -/
def hex4? : List Char → Option Nat
  | a :: b :: c :: d :: _ =>
    match hexValue? a, hexValue? b, hexValue? c, hexValue? d with
    | some a, some b, some c, some d => some (((a * 16 + b) * 16 + c) * 16 + d)
    | _, _, _, _ => none
  | _ => none

/-- The character of an escape with one letter. -/
def shortEscape? (c : Char) : Option Char :=
  if c = doubleQuote ∨ c = backslash ∨ c = '/' then some c
  else if c = 'b' then some '\x08'
  else if c = 'f' then some '\x0c'
  else if c = 'n' then some '\n'
  else if c = 'r' then some '\r'
  else if c = 't' then some '\t'
  else none

/-- The character of an escape by code unit, and the number of characters it takes after the
backslash. `unit` is the unit that has been read, `after` what follows its digits, and `position`
the place of the backslash. A high surrogate takes the low surrogate after it along; a surrogate
alone stands for no character and reads as the replacement character. -/
def unitEscape (position unit : Nat) (after : List Char) : Except Fault (Char × Nat) :=
  if 0xd800 ≤ unit ∧ unit < 0xdc00 ∧ 6 < (after.take 7).length ∧ after.take 2 = [backslash, 'u'] then
    match hex4? (after.drop 2) with
    | none => .error (.malformed .invalidUnicodeEscape (position + 7))
    | some low =>
      if 0xdc00 ≤ low ∧ low < 0xe000 then
        .ok (Char.ofNat (0x10000 + (unit - 0xd800) * 0x400 + (low - 0xdc00)), 11)
      else .ok ('\ufffd', 5)
  else if 0xd800 ≤ unit ∧ unit < 0xe000 then .ok ('\ufffd', 5)
  else .ok (Char.ofNat unit, 5)

/-- The character of the escape whose backslash stands at `position`, given what follows the
backslash, and the number of characters it takes after the backslash. The text it belongs to starts
at `start`. -/
def escapeAt (start position : Nat) : List Char → Except Fault (Char × Nat)
  | [] => .error (.malformed .unterminatedText start)
  | 'u' :: rest =>
    if (rest.take 5).length < 5 then .error (.malformed .invalidUnicodeEscape (position + 1))
    else match hex4? rest with
      | none => .error (.malformed .invalidUnicodeEscape (position + 1))
      | some unit => unitEscape position unit (rest.drop 4)
  | c :: _ =>
    match shortEscape? c with
    | some e => .ok (e, 1)
    | none => .error (.malformed .invalidEscape position)

/-- The rest of a text whose opening quote stands at `start`: its characters and the cursor behind
the closing quote. The first `skip` characters belong to an escape that has been read. -/
def textAt (start : Nat) : Nat → Nat → List Char → Except Fault (List Char × Cursor)
  | _, _, [] => .error (.malformed .unterminatedText start)
  | position, skip + 1, _ :: rest => textAt start (position + 1) skip rest
  | position, 0, c :: rest =>
    if c = doubleQuote then .ok ([], ⟨position + 1, rest⟩)
    else if c = backslash then
      match escapeAt start position rest with
      | .error fault => .error fault
      | .ok (e, size) => (textAt start (position + 1) size rest).map fun (cs, next) => (e :: cs, next)
    else if c.toNat < 0x20 then .error (.malformed .controlCharacter position)
    else (textAt start (position + 1) 0 rest).map fun (cs, next) => (c :: cs, next)

/-- The character is an ASCII digit. -/
def isDigit (c : Char) : Bool :=
  decide (48 ≤ c.toNat) && decide (c.toNat ≤ 57)

/-- Whether a numeral has a minus sign, and what follows the sign. -/
def minusOf : List Char → Bool × List Char
  | '-' :: rest => (true, rest)
  | rest => (false, rest)

/-- The digits in front of a numeral without its sign. A zero in front stands alone. -/
def wholeOf : List Char → List Char
  | '0' :: _ => ['0']
  | body => body.takeWhile isDigit

/-- The fraction of a numeral: its digits and what follows. A point without a digit is no fraction.
-/
def fractionOf : List Char → List Char × List Char
  | '.' :: rest =>
    match rest.takeWhile isDigit with
    | [] => ([], '.' :: rest)
    | ds => (ds, rest.dropWhile isDigit)
  | rest => ([], rest)

/-- The exponent of a numeral, if it has one, and what follows. A mark without a digit is no
exponent. -/
def exponentOf (cs : List Char) : Option (Bool × List Char) × List Char :=
  match cs with
  | [] => (none, cs)
  | mark :: rest =>
    if mark = 'e' ∨ mark = 'E' then
      let (negative, body) := signOf rest
      match body.takeWhile isDigit with
      | [] => (none, cs)
      | ds => (some (negative, ds), body.dropWhile isDigit)
    else (none, cs)

/-- The number with the given digit characters. -/
def natOf (ds : List Char) : Nat :=
  ofDigits (ds.map fun c => c.toNat - 48)

/-- The value of a numeral from its parts. -/
def numeral (negative : Bool) (whole fraction : List Char) (exponent : Option (Bool × List Char)) :
    Except Fault Value :=
  match fraction, exponent with
  | [], none =>
    if whole.length > digitLimit then .error (.number (.tooLong whole.length))
    else .ok (.int (if negative then -(natOf whole : Int) else natOf whole))
  | _, _ =>
    let power : Int := match exponent with
      | none => 0
      | some (false, ds) => natOf ds
      | some (true, ds) => -(natOf ds : Int)
    .ok (.float (.ofDecimal negative (natOf (whole ++ fraction)) (power - fraction.length)))

/-- A numeral, with `cursor` at its first character. -/
def numeralAt (cursor : Cursor) : Except Fault (Value × Cursor) :=
  let (negative, body) := minusOf cursor.rest
  let whole := wholeOf body
  if whole.isEmpty then .error (.malformed .expectingValue cursor.position)
  else
    let (fraction, afterFraction) := fractionOf (body.drop whole.length)
    let (exponent, rest) := exponentOf afterFraction
    (numeral negative whole fraction exponent).map fun value =>
      (value, ⟨cursor.position + (cursor.rest.length - rest.length), rest⟩)

/-- The words that stand for a value. -/
def keywords : List (List Char × Value) :=
  [("null".toList, .null), ("true".toList, .bool true), ("false".toList, .bool false),
   ("NaN".toList, .float .notANumber), ("Infinity".toList, .float (.infinity false)),
   ("-Infinity".toList, .float (.infinity true))]

/-- A word or a numeral. -/
def scalarAt (cursor : Cursor) : Except Fault (Value × Cursor) :=
  match keywords.find? fun keyword => keyword.1.isPrefixOf cursor.rest with
  | some (word, value) =>
    .ok (value, ⟨cursor.position + word.length, cursor.rest.drop word.length⟩)
  | none => numeralAt cursor

mutual

/-- The value at the cursor. -/
def valueAt : Nat → Cursor → Except Fault (Value × Cursor)
  | 0, cursor => .error (.malformed .expectingValue cursor.position)
  | fuel + 1, cursor =>
    match cursor.rest with
    | '\x22' :: rest =>
      (textAt cursor.position (cursor.position + 1) 0 rest).map fun (cs, next) =>
        (.text (String.ofList cs), next)
    | '\x7b' :: rest =>
      let next := skipSpace (cursor.position + 1) rest
      match next.rest with
      | '\x7d' :: after => .ok (.table [], ⟨next.position + 1, after⟩)
      | _ => membersAt fuel [] next
    | '[' :: rest =>
      let next := skipSpace (cursor.position + 1) rest
      match next.rest with
      | ']' :: after => .ok (.list [], ⟨next.position + 1, after⟩)
      | _ => itemsAt fuel next
    | _ => scalarAt cursor

/-- The members of a table from a key on, after the members already read. -/
def membersAt : Nat → Assoc Value → Cursor → Except Fault (Value × Cursor)
  | 0, _, cursor => .error (.malformed .expectingKey cursor.position)
  | fuel + 1, seen, cursor =>
    match cursor.rest with
    | '\x22' :: rest =>
      match textAt cursor.position (cursor.position + 1) 0 rest with
      | .error fault => .error fault
      | .ok (key, behindKey) =>
        let colon := behindKey.skip
        match colon.rest with
        | ':' :: rest =>
          match valueAt fuel (skipSpace (colon.position + 1) rest) with
          | .error fault => .error fault
          | .ok (value, behindValue) =>
            let seen := seen.set (String.ofList key) value
            let next := behindValue.skip
            match next.rest with
            | '\x7d' :: rest => .ok (.table seen, ⟨next.position + 1, rest⟩)
            | ',' :: rest => membersAt fuel seen (skipSpace (next.position + 1) rest)
            | _ => .error (.malformed .expectingComma next.position)
        | _ => .error (.malformed .expectingColon colon.position)
    | _ => .error (.malformed .expectingKey cursor.position)

/-- The items of a list from an item on. -/
def itemsAt : Nat → Cursor → Except Fault (Value × Cursor)
  | 0, cursor => .error (.malformed .expectingValue cursor.position)
  | fuel + 1, cursor =>
    match valueAt fuel cursor with
    | .error fault => .error fault
    | .ok (value, behind) =>
      let next := behind.skip
      match next.rest with
      | ']' :: rest => .ok (.list [value], ⟨next.position + 1, rest⟩)
      | ',' :: rest =>
        match itemsAt fuel (skipSpace (next.position + 1) rest) with
        | .ok (.list items, last) => .ok (.list (value :: items), last)
        | other => other
      | _ => .error (.malformed .expectingComma next.position)

end

/-- Reads a document. -/
def read (document : String) : Except Fault Value :=
  let cs := document.toList
  match cs with
  | '\ufeff' :: _ => .error (.malformed .byteOrderMark 0)
  | _ =>
    match valueAt (2 * cs.length + 2) (skipSpace 0 cs) with
    | .error fault => .error fault
    | .ok (value, behind) =>
      let last := behind.skip
      if last.rest.isEmpty then .ok value else .error (.malformed .extraData last.position)

end ProjectReview.Json
