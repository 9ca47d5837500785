import ProjectReview.Module.Token
import ProjectReview.Project.Part

set_option autoImplicit false

/-! # The outline of a module

`Outline.ofSource` reads the text of a module. The grammar is that of simple statements: assignments
to names, additions to a name, and expressions made of names, numbers, texts, sums and calls; a line
may start with the head of a function without parameters, whose body is the rest of the line.

A module that does not follow the grammar is refused at the line of the first token that no
well-formed module could have there. The readers spend one unit of fuel per rule they enter; the
outline supplies more than the tokens of the module can use up. -/

namespace ProjectReview

namespace Outline

/-- A statement: the names it assigns to, the names its expression reads, and where it stops. -/
structure Statement where
  targets : List Token
  used : List String
  start : Token
  stop : Token
deriving Repr

/-- The line of the token at the front. -/
def lineOf : List Token → Nat
  | [] => 1
  | token :: _ => token.line

/-- Refuses the token at the front. -/
def refuse {α : Type} (tokens : List Token) : Except Nat α :=
  .error (lineOf tokens)

/-- Takes a symbol from the front. -/
def expect (c : Char) (tokens : List Token) : Except Nat (Token × List Token) :=
  match tokens with
  | token :: rest => if token.kind = .symbol c then .ok (token, rest) else refuse tokens
  | [] => refuse tokens

/-- The token at the front is that symbol. -/
def at? (c : Char) : List Token → Bool
  | token :: _ => token.kind = .symbol c
  | [] => false

/-- What is known of an expression that has been read: the names it reads, its last token, and the
tokens behind it. -/
structure Read where
  used : List String
  last : Token
  rest : List Token
deriving Repr

mutual

/-- A sum. -/
def sumAt : Nat → List Token → Except Nat Read
  | 0, tokens => refuse tokens
  | fuel + 1, tokens =>
    match atomAt fuel tokens with
    | .error line => .error line
    | .ok first =>
      match first.rest with
      | plus :: rest =>
        if plus.kind = .symbol '+' then
          match sumAt fuel rest with
          | .error line => .error line
          | .ok others => .ok ⟨first.used ++ others.used, others.last, others.rest⟩
        else .ok first
      | [] => .ok first

/-- A name, number, text or sum in parentheses, with the calls behind it. -/
def atomAt : Nat → List Token → Except Nat Read
  | 0, tokens => refuse tokens
  | fuel + 1, tokens =>
    match tokens with
    | [] => refuse tokens
    | token :: rest =>
      match token.kind with
      | .name text => if text = "def" then refuse tokens else callsAt fuel ⟨[text], token, rest⟩
      | .number | .text => callsAt fuel ⟨[], token, rest⟩
      | .symbol '(' =>
        match sumAt fuel rest with
        | .error line => .error line
        | .ok inner =>
          match expect ')' inner.rest with
          | .error line => .error line
          | .ok (close, rest) => callsAt fuel ⟨inner.used, close, rest⟩
      | _ => refuse tokens

/-- The calls behind an expression. -/
def callsAt : Nat → Read → Except Nat Read
  | 0, read => refuse read.rest
  | fuel + 1, read =>
    if at? '(' read.rest then
      let arguments := read.rest.drop 1
      if at? ')' arguments then
        callsAt fuel ⟨read.used, arguments.headD read.last, arguments.drop 1⟩
      else
        match argumentsAt fuel arguments with
        | .error line => .error line
        | .ok given => callsAt fuel ⟨read.used ++ given.used, given.last, given.rest⟩
    else .ok read

/-- The arguments of a call up to the closing parenthesis. -/
def argumentsAt : Nat → List Token → Except Nat Read
  | 0, tokens => refuse tokens
  | fuel + 1, tokens =>
    match sumAt fuel tokens with
    | .error line => .error line
    | .ok first =>
      if at? ',' first.rest then
        match argumentsAt fuel (first.rest.drop 1) with
        | .error line => .error line
        | .ok others => .ok ⟨first.used ++ others.used, others.last, others.rest⟩
      else
        match expect ')' first.rest with
        | .error line => .error line
        | .ok (close, rest) => .ok ⟨first.used, close, rest⟩

end

/-- The names assigned to at the front, each with an equals sign behind it. -/
def targetsAt : List Token → List Token × List Token
  | token :: equals :: rest =>
    match token.kind with
    | .name text =>
      if text ≠ "def" ∧ equals.kind = .symbol '=' then
        let (targets, behind) := targetsAt rest
        (token :: targets, behind)
      else ([], token :: equals :: rest)
    | _ => ([], token :: equals :: rest)
  | tokens => ([], tokens)

/-- A simple statement. -/
def statementAt (fuel : Nat) (tokens : List Token) : Except Nat (Statement × List Token) :=
  let start := tokens.headD ⟨.fileEnd, 1, 0, 0⟩
  let (targets, value) :=
    match tokens with
    | token :: operator :: rest =>
      match token.kind with
      | .name text =>
        if text ≠ "def" ∧ operator.kind = .addAssign then ([], rest) else targetsAt tokens
      | _ => ([], tokens)
    | _ => ([], tokens)
  match sumAt fuel value with
  | .error line => .error line
  | .ok read => .ok (⟨targets, read.used, start, read.last⟩, read.rest)

/-- The statements of a line, up to its end. -/
def statementsAt : Nat → List Token → Except Nat (List Statement × List Token)
  | 0, tokens => refuse tokens
  | fuel + 1, tokens =>
    match statementAt fuel tokens with
    | .error line => .error line
    | .ok (statement, rest) =>
      match rest with
      | separator :: rest' =>
        if separator.kind = .lineEnd then .ok ([statement], rest')
        else if separator.kind = .symbol ';' then
          match rest' with
          | close :: rest'' =>
            if close.kind = .lineEnd then .ok ([statement], rest'')
            else
              match statementsAt fuel rest' with
              | .error line => .error line
              | .ok (others, behind) => .ok (statement :: others, behind)
          | [] => refuse rest'
        else refuse rest
      | [] => refuse rest

/-- The head of a function without parameters: what follows it. -/
def headAt (tokens : List Token) : Except Nat (List Token) := do
  match tokens with
  | name :: rest =>
    match name.kind with
    | .name text =>
      if text = "def" then refuse tokens
      else
        let (_, rest) ← expect '(' rest
        let (_, rest) ← expect ')' rest
        let (_, rest) ← expect ':' rest
        pure rest
    | _ => refuse tokens
  | [] => refuse tokens

/-- The lines of a module: for each, whether it is the body of a function, and its statements. -/
def linesAt : Nat → List Token → Except Nat (List (Bool × List Statement))
  | 0, tokens => refuse tokens
  | fuel + 1, tokens =>
    match tokens with
    | [] => .ok []
    | token :: rest =>
      match token.kind with
      | .fileEnd => .ok []
      | .lineEnd => linesAt fuel rest
      | .name "def" => do
        let body ← headAt rest
        let (statements, behind) ← statementsAt fuel body
        let others ← linesAt fuel behind
        pure ((true, statements) :: others)
      | _ => do
        let (statements, behind) ← statementsAt fuel tokens
        let others ← linesAt fuel behind
        pure ((false, statements) :: others)

/-- The range from the start of one token to the stop of another. -/
def span (first last : Token) : Range :=
  Range.of first.line (first.start + 1) last.line (last.stop + 1)

/-- The binding of a statement that assigns to one name. -/
def bindingOf (statement : Statement) : Option Binding :=
  match statement.targets with
  | [target] =>
    match target.kind with
    | .name text => some ⟨text, span target target, span statement.start statement.stop⟩
    | _ => none
  | _ => none

/-- The outline of a module's text, or the line at which it breaks the grammar. -/
def ofSource (source : String) : Except Nat ModuleOutline :=
  let tokens := Token.scan source
  (linesAt (4 * tokens.length + 4) tokens).map fun lines =>
    ⟨(lines.filter fun line => !line.1).flatMap fun line => line.2.filterMap bindingOf,
     lines.flatMap fun line => line.2.flatMap (·.used)⟩

end Outline

end ProjectReview
