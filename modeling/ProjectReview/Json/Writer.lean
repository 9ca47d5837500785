import ProjectReview.Data.Value
import ProjectReview.Text.Lines

set_option autoImplicit false

/-! # Writing JSON documents

`Json.write` lays a value out over several lines, two spaces deeper for each level, in pure ASCII:
every other character is written by its UTF-16 code units. Empty lists and tables stay on one line.
-/

namespace ProjectReview.Json

/-- An escape by code unit. -/
def writeUnit (unit : Nat) : List Char :=
  backslash :: 'u' :: hexDigits 4 unit

/-- One character inside quotes. -/
def writeChar (c : Char) : List Char :=
  if c = doubleQuote ∨ c = backslash then [backslash, c]
  else if c = '\n' then [backslash, 'n']
  else if c = '\r' then [backslash, 'r']
  else if c = '\t' then [backslash, 't']
  else if c = '\x08' then [backslash, 'b']
  else if c = '\x0c' then [backslash, 'f']
  else if 0x20 ≤ c.toNat ∧ c.toNat < 0x7f then [c]
  else if c.toNat < 0x10000 then writeUnit c.toNat
  else
    let high := (c.toNat - 0x10000) / 0x400
    let low := (c.toNat - 0x10000) % 0x400
    writeUnit (0xd800 + high) ++ writeUnit (0xdc00 + low)

/-- A text between quotes. -/
def writeText (s : String) : List Char :=
  doubleQuote :: s.toList.flatMap writeChar ++ [doubleQuote]

/-- A floating-point number. -/
def writeFloat (x : Binary64) : List Char :=
  match x.kind with
  | .nan => "NaN".toList
  | .infinite => if x.isNegative then "-Infinity".toList else "Infinity".toList
  | .finite _ _ => x.render.toList

/-- A line end and the indentation of a level. -/
def newLine (level : Nat) : List Char :=
  '\n' :: List.replicate (2 * level) ' '

mutual

/-- A value at a level of indentation. -/
def writeAt (level : Nat) : Value → List Char
  | .null => "null".toList
  | .bool b => if b then "true".toList else "false".toList
  | .int n => (toString n).toList
  | .float x => writeFloat x
  | .text s => writeText s
  | .moment s => writeText s
  | .list [] => ['[', ']']
  | .list (item :: items) =>
    '[' :: newLine (level + 1) ++ writeAt (level + 1) item ++ writeItems (level + 1) items ++
      newLine level ++ [']']
  | .table [] => ['\x7b', '\x7d']
  | .table ((key, value) :: fields) =>
    '\x7b' :: newLine (level + 1) ++ writeText key ++ [':', ' '] ++ writeAt (level + 1) value ++
      writeFields (level + 1) fields ++ newLine level ++ ['\x7d']

/-- Further items of a list. -/
def writeItems (level : Nat) : List Value → List Char
  | [] => []
  | item :: items => ',' :: newLine level ++ writeAt level item ++ writeItems level items

/-- Further fields of a table. -/
def writeFields (level : Nat) : List (String × Value) → List Char
  | [] => []
  | (key, value) :: fields =>
    ',' :: newLine level ++ writeText key ++ [':', ' '] ++ writeAt level value ++
      writeFields level fields

end

/-- Writes a document. -/
def write (value : Value) : String :=
  String.ofList (writeAt 0 value)

end ProjectReview.Json
