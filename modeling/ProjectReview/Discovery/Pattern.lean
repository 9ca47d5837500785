import ProjectReview.Discovery.Exclusion
import ProjectReview.Fault

set_option autoImplicit false

/-! # File patterns

A pattern describes file names: `*` stands for any characters, `?` for one character, and brackets
for one character of a set, or, after an exclamation mark, for one character outside of it. A
bracket that is not closed stands for itself. Case counts, and a leading dot is a character like any
other.

`Pattern.read` turns the text of a pattern into wildcards, and `Pattern.accepts` matches a name
against them. A pattern with several components never matches a single name, and one without any is
refused. -/

namespace ProjectReview

/-- One element of a pattern. -/
inductive Wildcard where
  | any
  | one
  | exactly (c : Char)
  | oneOf (negated : Bool) (ranges : List (Char × Char))
deriving DecidableEq, Repr

namespace Pattern

/-- Cuts the inside of a bracket at the hyphens that make ranges. A hyphen makes a range if it is
not the first character of the bracket and if, after the end of a range, at least one more character
stands before it. `wait` characters must pass before the next hyphen counts. -/
def chunks : Nat → List Char → List Char → List (List Char)
  | _, current, [] => [current.reverse]
  | wait + 1, current, c :: rest => chunks wait (c :: current) rest
  | 0, current, c :: rest =>
    if c = '-' then current.reverse :: chunks 2 [] rest else chunks 0 (c :: current) rest

/-- A hyphen at the end of a bracket stands for itself. -/
def closeChunks : List (List Char) → List (List Char)
  | [] => []
  | [last] => [last]
  | [chunk, []] => [chunk ++ ['-']]
  | chunk :: rest => chunk :: closeChunks rest

/-- Drops ranges that run backwards, from the last to the first: the chunks they join become one
without the two characters at the join. -/
def dropBackwards : List (List Char) → List (List Char)
  | [] => []
  | chunk :: rest =>
    match dropBackwards rest with
    | [] => [chunk]
    | next :: others =>
      match chunk.getLast?, next with
      | some a, b :: after =>
        if b < a then (chunk.dropLast ++ after) :: others else chunk :: next :: others
      | _, _ => chunk :: next :: others

/-- The ranges that chunks stand for: the last character of a chunk and the first of the next make a
range, and every other character stands for itself. `from?` is the first character of a range whose
other end starts the next chunk. -/
def rangesOf : Option Char → List (List Char) → List (Char × Char)
  | none, [] => []
  | some a, [] => [(a, a)]
  | from?, chunk :: rest =>
    let (front, body) := match from?, chunk with
      | some a, b :: body => ([(a, b)], body)
      | some a, [] => ([(a, a)], [])
      | none, body => ([], body)
    if rest.isEmpty then front ++ body.map fun c => (c, c)
    else front ++ body.dropLast.map (fun c => (c, c)) ++ rangesOf body.getLast? rest

/-- The set that the inside of a bracket stands for. -/
def bracketSet (inside : List Char) : Wildcard :=
  let (negated, body) := match inside with
    | '!' :: body => (true, body)
    | body => (false, body)
  let parts :=
    if body.contains '-' then dropBackwards (closeChunks (chunks 1 [] body)) else [body]
  .oneOf negated (rangesOf none parts)

/-- The inside of a bracket and what follows it, if it is closed. A closing bracket right at the
start, or right after the exclamation mark, belongs to the inside. -/
def splitBracket (cs : List Char) : Option (List Char × List Char) :=
  let (mark, rest) := match cs with
    | '!' :: rest => (['!'], rest)
    | rest => ([], rest)
  let (close, rest) := match rest with
    | ']' :: rest => ([']'], rest)
    | rest => ([], rest)
  match rest.dropWhile (· ≠ ']') with
  | _ :: after => some (mark ++ close ++ rest.takeWhile (· ≠ ']'), after)
  | [] => none

/-- The wildcards of a pattern, passing over the first `skip` characters, which belong to a bracket.
-/
def readFrom : Nat → List Char → List Wildcard
  | _, [] => []
  | skip + 1, _ :: rest => readFrom skip rest
  | 0, c :: rest =>
    if c = '*' then .any :: readFrom 0 rest
    else if c = '?' then .one :: readFrom 0 rest
    else if c = '[' then
      match splitBracket rest with
      | some (inside, _) => bracketSet inside :: readFrom (inside.length + 1) rest
      | none => .exactly '[' :: readFrom 0 rest
    else .exactly c :: readFrom 0 rest

/-- The wildcards of a pattern. -/
def read (pattern : String) : List Wildcard :=
  readFrom 0 pattern.toList

/-- The character is one that the element stands for. -/
def admits : Wildcard → Char → Bool
  | .any, _ => true
  | .one, _ => true
  | .exactly d, c => c == d
  | .oneOf negated ranges, c => (ranges.any fun (a, b) => decide (a ≤ c ∧ c ≤ b)) != negated

/-- All ends of a list, the whole list first. -/
def ends : List Char → List (List Char)
  | [] => [[]]
  | c :: rest => (c :: rest) :: ends rest

/-- The name matches the wildcards. -/
def accepts : List Wildcard → List Char → Bool
  | [], name => name.isEmpty
  | .any :: rest, name => (ends name).any fun tail => accepts rest tail
  | wildcard :: rest, c :: name => admits wildcard c && accepts rest name
  | _ :: _, [] => false

/-- A file name matches a pattern. -/
def matchesName (pattern : Value) (name : String) : Except Fault Bool :=
  match pattern with
  | .text text =>
    match rootOf text.toList, pathParts text with
    | [], [] => .error .emptyPattern
    | [], [part] => .ok (accepts (read part) name.toList)
    | _, _ => .ok false
  | .null => .error .emptyPattern
  | other => .error (.shape (.notSubscriptable other.typeName))

end Pattern

end ProjectReview
