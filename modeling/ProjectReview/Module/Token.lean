import ProjectReview.Text.Printable
import ProjectReview.Text.Utf8

set_option autoImplicit false

/-! # The tokens of a module

A module's text is cut into tokens: names, whole numbers, texts in double quotes, a few symbols and
the ends of lines. Blanks and comments stand between tokens, and so does a line end inside
parentheses. A token's columns count the bytes of its line, from zero.

`Token.scan` goes through the characters once, with the token it is inside of as its state; a
character that starts no token becomes a token of its own that no rule of the grammar accepts. -/

namespace ProjectReview

/-- What a token is. -/
inductive TokenKind where
  | name (text : String)
  | number
  | text
  | symbol (c : Char)
  | addAssign
  | lineEnd
  | fileEnd
  | stray
deriving DecidableEq, Repr

/-- A token with its line, from one, and the byte columns it spans, from zero. -/
structure Token where
  kind : TokenKind
  line : Nat
  start : Nat
  stop : Nat
deriving DecidableEq, Repr

namespace Token

/-- The character may start a name. -/
def startsName (c : Char) : Bool :=
  c.isAlpha || c == '_' || (decide (128 ≤ c.toNat) && isPrintable c)

/-- The character may stand in a name after its start. -/
def continuesName (c : Char) : Bool :=
  startsName c || c.isDigit

/-- The symbols of one character. -/
def isSymbol (c : Char) : Bool :=
  c == '=' || c == ';' || c == ':' || c == '(' || c == ')' || c == ','

/-- The token that the next character may continue. -/
inductive Pending where
  | nothing
  | name (start : Nat) (reversed : List Char)
  | number (start : Nat)
  | text (start : Nat)
  | plus (start : Nat)
  | comment
deriving DecidableEq, Repr

/-- Where the scan stands: inside which token, on which line, at which byte of it, and inside how
many parentheses. -/
structure State where
  pending : Pending := .nothing
  line : Nat := 1
  column : Nat := 0
  depth : Nat := 0
deriving Repr

/-- The token that ends before the current character, if one does. -/
def State.closed (s : State) : List Token :=
  match s.pending with
  | .name start reversed =>
    [⟨.name (String.ofList reversed.reverse), s.line, start, s.column⟩]
  | .number start => [⟨.number, s.line, start, s.column⟩]
  | .plus start => [⟨.symbol '+', s.line, start, s.column⟩]
  | .text start => [⟨.stray, s.line, start, s.column⟩]
  | .nothing | .comment => []

/-- Takes in a character outside of any token. -/
def State.fresh (s : State) (c : Char) : List Token × State :=
  let next := s.column + (encodeChar c).length
  let moved : State := { s with pending := .nothing, column := next }
  if c = '\n' then
    (if s.depth = 0 then [⟨.lineEnd, s.line, s.column, next⟩] else [],
      { s with pending := .nothing, line := s.line + 1, column := 0 })
  else if c = ' ' then ([], moved)
  else if c = '#' then ([], { moved with pending := .comment })
  else if c = doubleQuote then ([], { moved with pending := .text s.column })
  else if c = '+' then ([], { moved with pending := .plus s.column })
  else if c.isDigit then ([], { moved with pending := .number s.column })
  else if startsName c then ([], { moved with pending := .name s.column [c] })
  else if isSymbol c then
    ([⟨.symbol c, s.line, s.column, next⟩],
      { moved with depth := if c = '(' then s.depth + 1 else if c = ')' then s.depth - 1 else s.depth })
  else ([⟨.stray, s.line, s.column, next⟩], moved)

/-- Takes in a character: the tokens it completes and the state behind it. -/
def State.advance (s : State) (c : Char) : List Token × State :=
  let next := s.column + (encodeChar c).length
  let ended : List Token × State := (s.closed ++ (s.fresh c).1, (s.fresh c).2)
  match s.pending with
  | .nothing => s.fresh c
  | .comment => if c = '\n' then s.fresh c else ([], { s with column := next })
  | .text start =>
    if c = doubleQuote then
      ([⟨.text, s.line, start, next⟩], { s with pending := .nothing, column := next })
    else if c = '\n' then ended
    else ([], { s with column := next })
  | .plus start =>
    if c = '=' then
      ([⟨.addAssign, s.line, start, next⟩], { s with pending := .nothing, column := next })
    else ended
  | .number _ => if c.isDigit then ([], { s with column := next }) else ended
  | .name start reversed =>
    if continuesName c then ([], { s with pending := .name start (c :: reversed), column := next })
    else ended

/-- The tokens from a state on; the last line ends with the file if it does not end before. -/
def scanFrom : State → List Char → List Token
  | s, [] =>
    s.closed ++ [⟨.lineEnd, s.line, s.column, s.column⟩, ⟨.fileEnd, s.line, s.column, s.column⟩]
  | s, c :: rest =>
    let (done, next) := s.advance c
    done ++ scanFrom next rest

/-- The tokens of a module. -/
def scan (source : String) : List Token :=
  scanFrom {} (unifyLineEnds source.toList)

end Token

end ProjectReview
