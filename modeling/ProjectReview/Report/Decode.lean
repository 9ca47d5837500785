import ProjectReview.Data.Shape
import ProjectReview.Report.Finding

set_option autoImplicit false

/-! # Findings from data

A finding can be given as data: a table with its path, range and message, and optionally its
details, its fixes and the review it belongs to. A fix is a replacement of a range, a removal of
one, or an insertion at a position. -/

namespace ProjectReview

namespace Value

/-- The value at a key that a table must have. -/
def field (value : Value) (key : String) : Except ShapeFault Value :=
  match value with
  | .table fields =>
    match Assoc.get? fields key with
    | some v => .ok v
    | none => .error (.missingKey key)
  | other => .error (.notSubscriptable other.typeName)

/-- The value at a key, if the table has it. -/
def field? (value : Value) (key : String) : Option Value :=
  match value with
  | .table fields => Assoc.get? fields key
  | _ => none

/-- The text a value is. -/
def asText : Value → Except ShapeFault String
  | .text s => .ok s
  | other => .error (.notText other.typeName)

/-- The texts a list holds. -/
def asTexts (value : Value) : Except ShapeFault (List String) := do
  (← value.items).mapM asText

/-- The integers a list holds. -/
def asIntegers (value : Value) : Except ShapeFault (List Int) := do
  (← value.items).mapM toInteger

end Value

/-- A range from its four numbers. -/
def Range.ofValue (value : Value) : Except ShapeFault Range := do
  match ← value.asIntegers with
  | [a, b, c, d] => pure (Range.of a b c d)
  | _ => .error (.missingKey "range")

/-- A position from its two numbers. -/
def Position.ofValue (value : Value) : Except ShapeFault Position := do
  match ← value.asIntegers with
  | [a, b] => pure ⟨a, b⟩
  | _ => .error (.missingKey "at")

/-- A fix from data. -/
def Fix.ofValue (value : Value) : Except ShapeFault Fix := do
  match value.field? "remove", value.field? "at" with
  | some range, _ => pure (Fix.removal (← Range.ofValue range))
  | none, some position =>
    pure (Fix.insertion (← Position.ofValue position) (← (← value.field "text").asText))
  | none, none =>
    pure ⟨← Range.ofValue (← value.field "range"), ← (← value.field "text").asText⟩

/-- A finding from data. -/
def Finding.ofValue (value : Value) : Except ShapeFault Finding := do
  let details ← ((value.field? "details").getD (.list [])).asTexts
  let fixes ← (← ((value.field? "fixes").getD (.list [])).items).mapM Fix.ofValue
  pure {
    path := ← (← value.field "path").asText
    range := ← Range.ofValue (← value.field "range")
    message := ← (← value.field "message").asText
    details := details
    fixes := fixes
    review := ← ((value.field? "review").getD (.text "")).asText }

/-- Findings from a list of data. -/
def Finding.listOfValue (value : Value) : Except ShapeFault (List Finding) := do
  (← value.items).mapM Finding.ofValue

end ProjectReview
