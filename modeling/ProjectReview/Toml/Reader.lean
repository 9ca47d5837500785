import ProjectReview.Text.Search
import ProjectReview.Toml.Scalar

set_option autoImplicit false

/-! # Reading TOML documents

`Toml.read` reads a TOML 1.0 document into a table. The readers of values spend one unit of fuel per
nested value or statement; the length of the document bounds what they can use. -/

namespace ProjectReview.Toml

/-- The character may stand in a key without quotes. -/
def isKeyChar (c : Char) : Bool :=
  c.isAlphanum || c == '-' || c == '_'

/-- One name of a key. -/
def keyPart (cursor : Cursor) : Except Fault (String × Cursor) :=
  match cursor.rest with
  | c :: _ =>
    if isKeyChar c then
      .ok (String.ofList (cursor.rest.takeWhile isKeyChar), cursor.skipWhile isKeyChar)
    else if c = singleQuote then literalText cursor
    else if c = doubleQuote then lineText cursor
    else .error (.malformed "Invalid initial character for a key part" cursor.position)
  | [] => .error (.malformed "Invalid initial character for a key part" cursor.position)

/-- A key with its dots. -/
def key : Nat → Cursor → Except Fault (Key × Cursor)
  | 0, cursor => .error (.malformed "Invalid initial character for a key part" cursor.position)
  | fuel + 1, cursor => do
    let (name, next) ← keyPart cursor
    let behind := next.skipWhile isSpace
    match behind.rest with
    | '.' :: _ =>
      let (names, last) ← key fuel ((behind.advance 1).skipWhile isSpace)
      pure (name :: names, last)
    | _ => pure ([name], behind)

/-- Passes over blanks, line ends and comments. -/
def skipFiller : Nat → Cursor → Except Fault Cursor
  | 0, cursor => .ok cursor
  | fuel + 1, cursor => do
    let next ← skipComment (cursor.skipWhile isSpaceOrLine)
    if next.position = cursor.position then pure next else skipFiller fuel next

/-- The words that stand for a number. -/
def numberWords : List (String × Binary64) :=
  [("inf", .infinity false), ("nan", .notANumber), ("+inf", .infinity false),
   ("-inf", .infinity true), ("+nan", .notANumber), ("-nan", .notANumber)]

/-- A value that holds no other values. -/
def scalar (cursor : Cursor) : Except Fault (Value × Cursor) := do
  if cursor.at? "\"\"\"" then
    let (s, next) ← linesText false cursor
    pure (.text s, next)
  else if cursor.at? "\"" then
    let (s, next) ← lineText cursor
    pure (.text s, next)
  else if cursor.at? "'''" then
    let (s, next) ← linesText true cursor
    pure (.text s, next)
  else if cursor.at? "'" then
    let (s, next) ← literalText cursor
    pure (.text s, next)
  else if cursor.at? "true" then pure (.bool true, cursor.advance 4)
  else if cursor.at? "false" then pure (.bool false, cursor.advance 5)
  else match ← moment? cursor with
    | some found => pure found
    | none =>
      match ← number? cursor with
      | some found => pure found
      | none =>
        match numberWords.find? fun (word, _) => cursor.at? word with
        | some (word, x) => pure (.float x, cursor.advance word.length)
        | none => .error (.malformed "Invalid value" cursor.position)

mutual

/-- A value. -/
def value : Nat → Cursor → Except Fault (Value × Cursor)
  | 0, cursor => .error (.malformed "Invalid value" cursor.position)
  | fuel + 1, cursor =>
    match cursor.rest with
    | '[' :: _ => do
      let next ← skipFiller (cursor.rest.length + 1) (cursor.advance 1)
      match next.rest with
      | ']' :: _ => pure (.list [], next.advance 1)
      | _ =>
        let (items, last) ← items fuel next
        pure (.list items, last)
    | '\x7b' :: _ =>
      let next := (cursor.advance 1).skipWhile isSpace
      match next.rest with
      | '\x7d' :: _ => .ok (.table [], next.advance 1)
      | _ => fields fuel [] [] next
    | _ => scalar cursor

/-- The items of an array from an item on. -/
def items : Nat → Cursor → Except Fault (List Value × Cursor)
  | 0, cursor => .error (.malformed "Unclosed array" cursor.position)
  | fuel + 1, cursor => do
    let (first, next) ← value fuel cursor
    let behind ← skipFiller (next.rest.length + 1) next
    match behind.rest with
    | ']' :: _ => pure ([first], behind.advance 1)
    | ',' :: _ =>
      let next ← skipFiller (behind.rest.length + 1) (behind.advance 1)
      match next.rest with
      | ']' :: _ => pure ([first], next.advance 1)
      | _ =>
        let (others, last) ← items fuel next
        pure (first :: others, last)
    | _ => .error (.malformed "Unclosed array" behind.position)

/-- The fields of an inline table from a key on, after the fields and the closed keys so far. -/
def fields : Nat → Assoc Value → List Key → Cursor → Except Fault (Value × Cursor)
  | 0, _, _, cursor => .error (.malformed "Unclosed inline table" cursor.position)
  | fuel + 1, seen, closed, cursor => do
    let (key, next) ← key (cursor.rest.length + 1) cursor
    match next.rest with
    | '=' :: _ =>
      let (first, next) ← value fuel ((next.advance 1).skipWhile isSpace)
      let stem := key.getLastD ""
      if isClosed closed key then
        .error (.malformed ("Cannot mutate immutable namespace " ++ Key.shown key) next.position)
      else match changeTable false some key.dropLast seen with
        | none => .error (.malformed "Cannot overwrite a value" next.position)
        | some _ =>
          match changeTable false (setNew stem first) key.dropLast seen with
          | none => .error (.malformed ("Duplicate inline table key " ++ quoted stem) next.position)
          | some seen =>
            let behind := next.skipWhile isSpace
            match behind.rest with
            | '\x7d' :: _ => pure (.table seen, behind.advance 1)
            | ',' :: _ =>
              fields fuel seen (if isContainer first then closed ++ [key] else closed)
                ((behind.advance 1).skipWhile isSpace)
            | _ => .error (.malformed "Unclosed inline table" behind.position)
    | _ => .error (.malformed "Expected '=' after a key in a key/value pair" next.position)

end

/-- A fault of the document being built, at a position. -/
def atPosition {α : Type} (position : Nat) (x : Except String α) : Except Fault α :=
  x.mapError fun problem => .malformed problem position

/-- One statement of a document: the document and the key of the table that the next statements
belong to. -/
def statement (document : Document) (header : Key) (cursor : Cursor) :
    Except Fault (Document × Key × Cursor) :=
  let fuel := 2 * cursor.rest.length + 2
  match cursor.rest with
  | '[' :: '[' :: _ => do
    let (key, next) ← key fuel ((cursor.advance 2).skipWhile isSpace)
    let document ← atPosition next.position (document.declareArrayTable key)
    if next.at? "]]" then pure (document, key, next.advance 2)
    else .error (.malformed "Expected ']]' at the end of an array declaration" next.position)
  | '[' :: _ => do
    let (key, next) ← key fuel ((cursor.advance 1).skipWhile isSpace)
    let document ← atPosition next.position (document.declareTable key)
    if next.at? "]" then pure (document, key, next.advance 1)
    else .error (.malformed "Expected ']' at the end of a table declaration" next.position)
  | c :: _ =>
    if isKeyChar c ∨ c = singleQuote ∨ c = doubleQuote then do
      let (key, next) ← key fuel cursor
      match next.rest with
      | '=' :: _ =>
        let (value, next) ← value fuel ((next.advance 1).skipWhile isSpace)
        let document ← atPosition next.position (document.assign header key value)
        pure (document, header, next)
      | _ => .error (.malformed "Expected '=' after a key in a key/value pair" next.position)
    else if c = '#' then .ok (document, header, cursor)
    else .error (.malformed "Invalid statement" cursor.position)
  | [] => .ok (document, header, cursor)

/-- The statements of a document. -/
def statements : Nat → Document → Key → Cursor → Except Fault Document
  | 0, document, _, _ => .ok document
  | fuel + 1, document, header, cursor =>
    let cursor := cursor.skipWhile isSpace
    match cursor.rest with
    | [] => .ok document
    | '\n' :: _ => statements fuel document header (cursor.advance 1)
    | _ => do
      let (document, header, next) ← statement document header cursor
      let last ← skipComment (next.skipWhile isSpace)
      match last.rest with
      | [] => pure document
      | '\n' :: _ => statements fuel document header (last.advance 1)
      | _ =>
        .error (.malformed "Expected newline or end of document after a statement" last.position)

/-- Reads a document. -/
def read (text : String) : Except (String × Fault) Value :=
  let document := replaceAll "\r\n" "\n" text
  match statements (document.length + 1) {} [] ⟨0, document.toList⟩ with
  | .ok built => .ok (.table built.fields)
  | .error fault => .error (document, fault)

end ProjectReview.Toml
