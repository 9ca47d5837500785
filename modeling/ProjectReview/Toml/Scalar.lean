import ProjectReview.Json.Reader
import ProjectReview.Toml.Document

set_option autoImplicit false

/-! # TOML texts, numbers and times

Readers for the values of a TOML document that hold no other values. Each takes the position and the
characters from there on, and gives the value with the position and the characters behind it. -/

namespace ProjectReview.Toml

/-- The characters still to be read and the position of the first of them. -/
abbrev Cursor := Json.Cursor

/-- The cursor behind the first `n` characters. -/
def Cursor.advance (cursor : Cursor) (n : Nat) : Cursor :=
  ⟨cursor.position + n, cursor.rest.drop n⟩

/-- The cursor behind the characters at its front that satisfy `p`. -/
def Cursor.skipWhile (p : Char → Bool) (cursor : Cursor) : Cursor :=
  cursor.advance (cursor.rest.takeWhile p).length

/-- A space or a tab. -/
def isSpace (c : Char) : Bool := c == ' ' || c == '\t'

/-- A space, a tab or a line end. -/
def isSpaceOrLine (c : Char) : Bool := isSpace c || c == '\n'

/-- A control character that may not stand in a text or comment. -/
def isControl (c : Char) : Bool :=
  (decide (c.toNat < 32) && c != '\t') || decide (c.toNat = 127)

/-- A control character that may not stand in a text of several lines. -/
def isControlInLines (c : Char) : Bool :=
  isControl c && c != '\n'

/-- A character as problems show it. -/
def shownChar (c : Char) : String := quoted (String.ofList [c])

/-- The front of the characters matches a text. -/
def Cursor.at? (cursor : Cursor) (text : String) : Bool :=
  text.toList.isPrefixOf cursor.rest

/-- The characters before the first occurrence of a text, if it occurs. -/
def before? (stop : List Char) : List Char → Option (List Char)
  | [] => none
  | c :: rest =>
    if stop.isPrefixOf (c :: rest) then some [] else (before? stop rest).map (c :: ·)

/-- Takes characters from the front; the first forbidden one among them is refused. -/
def takeAllowed (forbidden : Char → Bool) (cursor : Cursor) (cs : List Char) :
    Except Fault (List Char × Cursor) :=
  match cs.zipIdx.find? fun (c, _) => forbidden c with
  | some (c, n) =>
    .error (.malformed ("Found invalid character " ++ shownChar c) (cursor.position + n))
  | none => .ok (cs, cursor.advance cs.length)

/-- The characters up to a text that must come, and the cursor at it. -/
def takeUntil (stop : String) (forbidden : Char → Bool) (cursor : Cursor) :
    Except Fault (List Char × Cursor) :=
  match before? stop.toList cursor.rest with
  | none => .error (.malformed ("Expected " ++ quoted stop) (cursor.position + cursor.rest.length))
  | some cs => takeAllowed forbidden cursor cs

/-- Passes over a comment. -/
def skipComment (cursor : Cursor) : Except Fault Cursor :=
  match cursor.rest with
  | '#' :: rest =>
    (takeAllowed isControl (cursor.advance 1) (rest.takeWhile (· ≠ '\n'))).map (·.2)
  | _ => .ok cursor

/-- A text in single quotes, with the cursor at the opening quote. -/
def literalText (cursor : Cursor) : Except Fault (String × Cursor) := do
  let (cs, next) ← takeUntil "'" isControl (cursor.advance 1)
  pure (String.ofList cs, next.advance 1)

/-- The character with a code point given by hexadecimal digits. -/
def hexChar (cursor : Cursor) (width : Nat) : Except Fault (List Char × Cursor) :=
  let digits := cursor.rest.take width
  match digits.mapM Json.hexValue? with
  | some values =>
    if digits.length = width then
      let n := values.foldl (fun n d => 16 * n + d) 0
      if n < 0xd800 ∨ (0xe000 ≤ n ∧ n < 0x110000) then
        .ok ([Char.ofNat n], cursor.advance width)
      else .error (.malformed "Escaped character is not a Unicode scalar value"
        (cursor.position + width))
    else .error (.malformed "Invalid hex value" cursor.position)
  | none => .error (.malformed "Invalid hex value" cursor.position)

/-- The problem of a backslash that starts no escape. -/
def strayBackslash : String := "Unescaped '\\' in a string"

/-- An escape, with the cursor at its backslash. In a text of several lines a backslash at the end
of a line passes over the blanks that follow. -/
def escape (multiline : Bool) (cursor : Cursor) : Except Fault (List Char × Cursor) :=
  let next := cursor.advance 2
  match cursor.rest.drop 1 with
  | [] => .error (.malformed strayBackslash next.position)
  | c :: _ =>
    if multiline ∧ c = '\n' then .ok ([], next.skipWhile isSpaceOrLine)
    else if multiline ∧ isSpace c then
      let behind := next.skipWhile isSpace
      match behind.rest with
      | [] => .ok ([], behind)
      | '\n' :: _ => .ok ([], (behind.advance 1).skipWhile isSpaceOrLine)
      | _ => .error (.malformed strayBackslash behind.position)
    else if c = 'u' then hexChar next 4
    else if c = 'U' then hexChar next 8
    else if c = 'b' then .ok (['\x08'], next)
    else if c = 't' then .ok (['\t'], next)
    else if c = 'n' then .ok (['\n'], next)
    else if c = 'f' then .ok (['\x0c'], next)
    else if c = 'r' then .ok (['\r'], next)
    else if c = doubleQuote then .ok ([doubleQuote], next)
    else if c = backslash then .ok ([backslash], next)
    else .error (.malformed strayBackslash next.position)

/-- The rest of a text in double quotes: its characters and the cursor behind the closing quotes. -/
def basicText (multiline : Bool) : Nat → Cursor → Except Fault (List Char × Cursor)
  | 0, cursor => .error (.malformed "Unterminated string" cursor.position)
  | fuel + 1, cursor =>
    match cursor.rest with
    | [] => .error (.malformed "Unterminated string" cursor.position)
    | c :: _ =>
      if c = doubleQuote ∧ ¬ multiline then .ok ([], cursor.advance 1)
      else if c = doubleQuote ∧ cursor.at? "\"\"\"" then .ok ([], cursor.advance 3)
      else if c = backslash then do
        let (cs, next) ← escape multiline cursor
        let (others, last) ← basicText multiline fuel next
        pure (cs ++ others, last)
      else if c ≠ doubleQuote ∧ (if multiline then isControlInLines c else isControl c) then
        .error (.malformed ("Illegal character " ++ shownChar c) cursor.position)
      else do
        let (others, last) ← basicText multiline fuel (cursor.advance 1)
        pure (c :: others, last)

/-- A text in double quotes on one line, with the cursor at the opening quote. -/
def lineText (cursor : Cursor) : Except Fault (String × Cursor) := do
  let (cs, next) ← basicText false (cursor.rest.length + 1) (cursor.advance 1)
  pure (String.ofList cs, next)

/-- Up to two further quotes right behind the closing quotes belong to the text. -/
def trailingQuotes (quote : Char) (cs : List Char) (cursor : Cursor) : String × Cursor :=
  match cursor.rest with
  | a :: b :: _ =>
    if a = quote ∧ b = quote then (String.ofList (cs ++ [quote, quote]), cursor.advance 2)
    else if a = quote then (String.ofList (cs ++ [quote]), cursor.advance 1)
    else (String.ofList cs, cursor)
  | [a] =>
    if a = quote then (String.ofList (cs ++ [quote]), cursor.advance 1) else (String.ofList cs, cursor)
  | [] => (String.ofList cs, cursor)

/-- A text of several lines, with the cursor at the three opening quotes; a line end right behind
them does not belong to the text. -/
def linesText (literal : Bool) (cursor : Cursor) : Except Fault (String × Cursor) := do
  let opened := cursor.advance 3
  let opened := if opened.at? "\n" then opened.advance 1 else opened
  if literal then
    let (cs, next) ← takeUntil "'''" isControlInLines opened
    pure (trailingQuotes singleQuote cs (next.advance 3))
  else
    let (cs, next) ← basicText true (opened.rest.length + 1) opened
    pure (trailingQuotes doubleQuote cs next)

/-! ## Numbers -/

/-- Digits of a kind and single underscores before digits: the digits, and how many characters they
take with the underscores. -/
def digitsFrom (isDigit : Char → Bool) : List Char → List Char × Nat
  | [] => ([], 0)
  | c :: rest =>
    if isDigit c then
      let (ds, n) := digitsFrom isDigit rest
      (c :: ds, n + 1)
    else if c = '_' ∧ rest.head?.any isDigit then
      let (ds, n) := digitsFrom isDigit rest
      (ds, n + 1)
    else ([], 0)

/-- Digits of a kind with single underscores between them: the digits, and how many characters they
take with the underscores. -/
def digitGroup (isDigit : Char → Bool) (cs : List Char) : List Char × Nat :=
  if cs.head?.any isDigit then digitsFrom isDigit cs else ([], 0)

/-- A whole number in another base, if the characters are one. -/
def basedNumber? (cs : List Char) : Option (Nat × Nat) :=
  let group (base : Nat) (isDigit : Char → Bool) (rest : List Char) : Option (Nat × Nat) :=
    match digitGroup isDigit rest with
    | ([], _) => none
    | (ds, n) => some (ds.foldl (fun v d => base * v + (Json.hexValue? d).getD 0) 0, n + 2)
  match cs with
  | '0' :: 'x' :: rest => group 16 (fun c => (Json.hexValue? c).isSome) rest
  | '0' :: 'b' :: rest => group 2 (fun c => c == '0' || c == '1') rest
  | '0' :: 'o' :: rest => group 8 (fun c => decide ('0' ≤ c ∧ c ≤ '7')) rest
  | _ => none

/-- The fraction at the front: its digits and how many characters it takes. -/
def fractionPart : List Char → List Char × Nat
  | '.' :: rest =>
    match digitGroup Json.isDigit rest with
    | ([], _) => ([], 0)
    | (ds, n) => (ds, n + 1)
  | _ => ([], 0)

/-- The exponent at the front, if there is one, and how many characters it takes. -/
def exponentPart : List Char → Option (Bool × List Char) × Nat
  | mark :: rest =>
    if mark = 'e' ∨ mark = 'E' then
      let (negative, body) := signOf rest
      match digitGroup Json.isDigit body with
      | ([], _) => (none, 0)
      | (ds, n) => (some (negative, ds), n + 1 + (rest.length - body.length))
    else (none, 0)
  | [] => (none, 0)

/-- A number at the cursor, if there is one. -/
def number? (cursor : Cursor) : Except Fault (Option (Value × Cursor)) :=
  match basedNumber? cursor.rest with
  | some (n, size) => .ok (some (.int n, cursor.advance size))
  | none =>
    let (negative, body) := signOf cursor.rest
    let (whole, size) := match body with
      | '0' :: _ => (['0'], 1)
      | _ => digitGroup Json.isDigit body
    if whole.isEmpty then .ok none
    else
      let (fraction, fractionSize) := fractionPart (body.drop size)
      let (exponent, exponentSize) := exponentPart (body.drop (size + fractionSize))
      let total := (cursor.rest.length - body.length) + size + fractionSize + exponentSize
      match Json.numeral negative whole fraction exponent with
      | .ok value => .ok (some (value, cursor.advance total))
      | .error (.number fault) => .error (.number fault)
      | .error (.malformed _ position) => .error (.malformed "Invalid value" position)

/-! ## Dates and times -/

/-- The number of the first `width` characters, if they are digits and it lies between two bounds.
-/
def boundedNumber? (width low high : Nat) (cs : List Char) : Option Nat :=
  let digits := cs.take width
  if digits.length = width ∧ digits.all Json.isDigit then
    let n := Json.natOf digits
    if low ≤ n ∧ n ≤ high then some n else none
  else none

/-- A time at the front: its text, and how many characters it takes. At most six digits of the
fraction of a second are kept. -/
def time? (cs : List Char) : Option (List Char × Nat) :=
  match boundedNumber? 2 0 23 cs, cs.drop 2 with
  | some _, ':' :: minutes =>
    match boundedNumber? 2 0 59 minutes, minutes.drop 2 with
    | some _, ':' :: seconds =>
      match boundedNumber? 2 0 59 seconds with
      | none => none
      | some _ =>
        match seconds.drop 2 with
        | '.' :: rest =>
          let digits := rest.takeWhile Json.isDigit
          if digits.isEmpty then some (cs.take 8, 8)
          else
            let kept := digits.take 6
            let micros := kept ++ List.replicate (6 - kept.length) '0'
            let shown := if micros.all (· == '0') then [] else '.' :: micros
            some (cs.take 8 ++ shown, 9 + digits.length)
        | _ => some (cs.take 8, 8)
    | _, _ => none
  | _, _ => none

/-- A time offset at the front, as text, and how many characters it takes. -/
def offset? (cs : List Char) : Option (List Char × Nat) :=
  match cs with
  | [] => none
  | c :: rest =>
    if c = 'Z' ∨ c = 'z' then some ("+00:00".toList, 1)
    else if c = '+' ∨ c = '-' then
      match boundedNumber? 2 0 23 rest, rest.drop 2 with
      | some hours, ':' :: minutes =>
        match boundedNumber? 2 0 59 minutes with
        | some m =>
          let sign := if hours = 0 ∧ m = 0 then '+' else c
          some (sign :: rest.take 5, 6)
        | none => none
      | _, _ => none
    else none

/-- The number of days in a month. -/
def daysIn (year month : Nat) : Nat :=
  if month = 2 then
    (if year % 4 = 0 ∧ (year % 100 ≠ 0 ∨ year % 400 = 0) then 29 else 28)
  else if month = 4 ∨ month = 6 ∨ month = 9 ∨ month = 11 then 30 else 31

/-- A date at the front: year, month and day. -/
def date? (cs : List Char) : Option (Nat × Nat × Nat) :=
  match boundedNumber? 4 0 9999 cs, cs.drop 4 with
  | some year, '-' :: months =>
    match boundedNumber? 2 1 12 months, months.drop 2 with
    | some month, '-' :: days => (boundedNumber? 2 1 31 days).map fun day => (year, month, day)
    | _, _ => none
  | _, _ => none

/-- A date or time at the cursor, if there is one. -/
def moment? (cursor : Cursor) : Except Fault (Option (Value × Cursor)) :=
  match date? cursor.rest with
  | some (year, month, day) =>
    let date := cursor.rest.take 10
    let (clock, size) := match cursor.rest.drop 10 with
      | mark :: rest =>
        if mark = 'T' ∨ mark = 't' ∨ mark = ' ' then
          match time? rest with
          | some (time, n) =>
            match offset? (rest.drop n) with
            | some (offset, k) => (' ' :: time ++ offset, 1 + n + k)
            | none => (' ' :: time, 1 + n)
          | none => ([], 0)
        else ([], 0)
      | [] => ([], 0)
    if year = 0 ∨ daysIn year month < day then
      .error (.malformed "Invalid date or datetime" cursor.position)
    else .ok (some (.moment (String.ofList (date ++ clock)), cursor.advance (10 + size)))
  | none =>
    match time? cursor.rest with
    | some (time, n) => .ok (some (.moment (String.ofList time), cursor.advance n))
    | none => .ok none

end ProjectReview.Toml
