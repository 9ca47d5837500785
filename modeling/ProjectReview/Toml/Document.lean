import ProjectReview.Data.Value
import ProjectReview.Text.Integer

set_option autoImplicit false

/-! # Building TOML documents

A TOML document is built statement by statement. `Document` holds the tables so far and what may no
longer be changed: inline tables and arrays are closed for good with everything in them, and a table
that has been declared cannot be declared again. -/

namespace ProjectReview.Toml

/-- Why a document is refused. -/
inductive Fault where
  /-- The document breaks a rule at a position. -/
  | malformed (problem : String) (position : Nat)
  /-- An integer in the document has too many digits. -/
  | number (fault : IntegerFault)
deriving DecidableEq, Repr

namespace Fault

/-- The place of a position in a document. -/
def place (document : List Char) (position : Nat) : String :=
  if document.length ≤ position then "end of document"
  else
    let before := document.take position
    "line " ++ toString (before.count '\n' + 1) ++ ", column " ++
      toString ((before.reverse.takeWhile (· ≠ '\n')).length + 1)

/-- The wording of a refusal of a document. -/
def message (document : List Char) : Fault → String
  | malformed problem position => problem ++ " (at " ++ place document position ++ ")"
  | number fault => fault.message

end Fault

/-- A key with its dots: the names from the outermost table on. -/
abbrev Key := List String

/-- A key as problems show it. -/
def Key.shown : Key → String
  | [name] => "(" ++ quoted name ++ ",)"
  | names => "(" ++ ", ".intercalate (names.map quoted) ++ ")"

/-- The tables of a document so far, the keys whose tables are closed with everything in them, the
keys whose tables have been declared, and those that count as declared from the next table on. -/
structure Document where
  fields : Assoc Value := []
  closed : List Key := []
  declared : List Key := []
  pending : List Key := []

/-- Changes the table behind a key, making the tables on the way. With `throughArrays`, an array of
tables stands for its last table. Fails where something other than a table is in the way. -/
def changeTable (throughArrays : Bool) (change : Assoc Value → Option (Assoc Value)) :
    Key → Assoc Value → Option (Assoc Value)
  | [], fields => change fields
  | name :: rest, fields =>
    match fields.get? name with
    | none => (changeTable throughArrays change rest []).map fun inner => fields.set name (.table inner)
    | some (.table inner) =>
      (changeTable throughArrays change rest inner).map fun inner => fields.set name (.table inner)
    | some (.list items) =>
      match throughArrays, items.getLast? with
      | true, some (.table inner) =>
        (changeTable throughArrays change rest inner).map fun inner =>
          fields.set name (.list (items.dropLast ++ [.table inner]))
      | _, _ => none
    | some _ => none

/-- Sets a name that a table does not have yet. -/
def setNew (name : String) (value : Value) (fields : Assoc Value) : Option (Assoc Value) :=
  if fields.has name then none else some (fields.set name value)

/-- Puts an empty table at the end of an array of tables. -/
def appendTable (name : String) (fields : Assoc Value) : Option (Assoc Value) :=
  match fields.get? name with
  | none => some (fields.set name (.list [.table []]))
  | some (.list items) => some (fields.set name (.list (items ++ [.table []])))
  | some _ => none

/-- Some start of the key, or the key itself, is among the closed ones. -/
def isClosed (closed : List Key) (key : Key) : Bool :=
  closed.any fun other => decide (other ≠ []) && other.isPrefixOf key

/-- Inline tables and arrays. -/
def isContainer : Value → Bool
  | .table _ | .list _ => true
  | _ => false

namespace Document

/-- Declares a table. -/
def declareTable (document : Document) (key : Key) : Except String Document :=
  let declared := document.declared ++ document.pending
  if declared.contains key || isClosed document.closed key then
    .error ("Cannot declare " ++ key.shown ++ " twice")
  else match changeTable true some key document.fields with
    | none => .error "Cannot overwrite a value"
    | some fields =>
      .ok { document with fields, declared := declared ++ [key], pending := [] }

/-- Declares the next table of an array of tables. -/
def declareArrayTable (document : Document) (key : Key) : Except String Document :=
  let declared := document.declared ++ document.pending
  if isClosed document.closed key then
    .error ("Cannot mutate immutable namespace " ++ key.shown)
  else
    let outside (other : Key) : Bool := !key.isPrefixOf other
    match changeTable true (appendTable (key.getLastD "")) key.dropLast document.fields with
    | none => .error "Cannot overwrite a value"
    | some fields =>
      .ok { fields, closed := document.closed.filter outside,
            declared := declared.filter outside ++ [key], pending := [] }

/-- The keys of the tables that a dotted key goes through, in the table behind `header`. -/
def waypoints (header key : Key) : List Key :=
  (List.range (key.length - 1)).map fun n => header ++ key.take (n + 1)

/-- Sets a key in the table behind `header`. -/
def assign (document : Document) (header key : Key) (value : Value) : Except String Document :=
  let above := header ++ key.dropLast
  match (waypoints header key).find? document.declared.contains with
  | some waypoint => .error ("Cannot redefine namespace " ++ Key.shown waypoint)
  | none =>
    if isClosed document.closed above then
      .error ("Cannot mutate immutable namespace " ++ Key.shown above)
    else match changeTable true (setNew (key.getLastD "") value) above document.fields with
      | none => .error "Cannot overwrite a value"
      | some fields =>
        .ok { document with
              fields
              closed := if isContainer value then document.closed ++ [header ++ key]
                else document.closed
              pending := document.pending ++ waypoints header key }

end Document

end ProjectReview.Toml
