import ProjectReview.Data.Value
import ProjectReview.Order.StableSort
import ProjectReview.Text.Integer

set_option autoImplicit false

/-! # The shape of data

Data from a document may have any shape. The operations here ask for a certain shape and fail with a
`ShapeFault` where the data has another: looking a key up in a table, going through the items of a
value, reading an integer, adding two values. -/

namespace ProjectReview

/-- How data misses the shape that an operation needs. -/
inductive ShapeFault where
  /-- Values of that type do not have the operation. -/
  | noAttribute (type operation : String)
  /-- Values of that type have no items. -/
  | notIterable (type : String)
  /-- Values of that type hold nothing that could be looked for. -/
  | noMembership (type : String)
  /-- Values of that type do not stand for a number. -/
  | notANumber (type : String)
  /-- An infinite number has no whole part. -/
  | infiniteInteger
  /-- What is not a number has no whole part. -/
  | undefinedInteger
  /-- The text is not an integer. -/
  | integer (fault : IntegerFault)
  /-- Only values of the same type can be put together. -/
  | cannotConcatenate (left right : String)
  /-- Values of these types cannot be added. -/
  | cannotAdd (left right : String)
  /-- A text was needed. -/
  | notText (type : String)
  /-- An item of a list was not a text. -/
  | itemNotText (index : Nat) (type : String)
  /-- Values of that type cannot serve as a key. -/
  | unhashable (type : String)
  /-- Values of that type have no parts that could be picked by position. -/
  | notSubscriptable (type : String)
  /-- A path cannot be continued by a value of that type. -/
  | notAPath (type : String)
  /-- Values of these types have no order. -/
  | notOrdered (left right : String)
  /-- A table lacks the key. -/
  | missingKey (key : String)
deriving DecidableEq, Repr

namespace ShapeFault

/-- The kind of fault, as messages name it. -/
def label : ShapeFault → String
  | noAttribute .. => "AttributeError"
  | infiniteInteger => "OverflowError"
  | undefinedInteger | integer .. => "ValueError"
  | missingKey .. => "KeyError"
  | _ => "TypeError"

/-- The wording of a fault. -/
def message : ShapeFault → String
  | noAttribute type operation => "'" ++ type ++ "' object has no attribute '" ++ operation ++ "'"
  | notIterable type => "'" ++ type ++ "' object is not iterable"
  | noMembership type => "argument of type '" ++ type ++ "' is not iterable"
  | notANumber type =>
    "int() argument must be a string, a bytes-like object or a real number, not '" ++ type ++ "'"
  | infiniteInteger => "cannot convert float infinity to integer"
  | undefinedInteger => "cannot convert float NaN to integer"
  | integer fault => fault.message
  | cannotConcatenate left right =>
    "can only concatenate " ++ left ++ " (not \"" ++ right ++ "\") to " ++ left
  | cannotAdd left right =>
    "unsupported operand type(s) for +: '" ++ left ++ "' and '" ++ right ++ "'"
  | notText type => "expected string or bytes-like object, got '" ++ type ++ "'"
  | itemNotText index type =>
    "sequence item " ++ toString index ++ ": expected str instance, " ++ type ++ " found"
  | unhashable type => "unhashable type: '" ++ type ++ "'"
  | notSubscriptable type => "'" ++ type ++ "' object is not subscriptable"
  | notAPath type => "unsupported operand type(s) for /: 'PosixPath' and '" ++ type ++ "'"
  | notOrdered left right =>
    "'<' not supported between instances of '" ++ left ++ "' and '" ++ right ++ "'"
  | missingKey key => quoted key

end ShapeFault

namespace Value

/-- The value at a key of a table, or a default if the table lacks the key. -/
def lookup (value : Value) (key : String) (default : Value) : Except ShapeFault Value :=
  match value with
  | .table fields => .ok ((Assoc.get? fields key).getD default)
  | other => .error (.noAttribute other.typeName "get")

/-- The items of a value: the items of a list, the keys of a table, the characters of a text. -/
def items : Value → Except ShapeFault (List Value)
  | .list items => .ok items
  | .table fields => .ok (fields.map fun field => .text field.1)
  | .text s => .ok (s.toList.map fun c => .text (String.ofList [c]))
  | other => .error (.notIterable other.typeName)

/-- The integer a value stands for; fractions are cut off. -/
def toInteger : Value → Except ShapeFault Int
  | .int n => .ok n
  | .bool b => .ok (if b then 1 else 0)
  | .text s => (readInteger s).mapError .integer
  | .float x =>
    match x.kind with
    | .infinite => .error .infiniteInteger
    | .nan => .error .undefinedInteger
    | .finite _ _ => .ok (x.truncate?.getD 0)
  | other => .error (.notANumber other.typeName)

/-- The whole number of a truth value or an integer. -/
def whole? : Value → Option Int
  | .int n => some n
  | .bool b => some (if b then 1 else 0)
  | _ => none

/-- The sum of two values: texts and lists are put together, whole numbers are added. -/
def add (a b : Value) : Except ShapeFault Value :=
  match a, b with
  | .text s, .text t => .ok (.text (s ++ t))
  | .list xs, .list ys => .ok (.list (xs ++ ys))
  | .text _, other => .error (.cannotConcatenate "str" other.typeName)
  | .list _, other => .error (.cannotConcatenate "list" other.typeName)
  | a, b =>
    match a.whole?, b.whole? with
    | some m, some n => .ok (.int (m + n))
    | _, _ => .error (.cannotAdd a.typeName b.typeName)

/-- The two values have an order: texts among themselves, and whole numbers. -/
def hasOrderWith (a b : Value) : Bool :=
  a.text?.isSome && b.text?.isSome || a.whole?.isSome && b.whole?.isSome

/-- The value does not come behind another of its kind. -/
def upTo (a b : Value) : Bool :=
  match a.whole?, b.whole? with
  | some m, some n => decide (m ≤ n)
  | _, _ => textLe ((a.text?).getD "") ((b.text?).getD "")

/-- The values in ascending order by a key, the first of equals first. Neighbours that have no order
make it fail. -/
def sortByKey {α : Type} (key : α → Value) (xs : List α) : Except ShapeFault (List α) :=
  match (xs.zip xs.tail).find? fun pair => !(key pair.1).hasOrderWith (key pair.2) with
  | some (a, b) => .error (.notOrdered (key b).typeName (key a).typeName)
  | none => .ok (sortBy (fun a b => (key a).upTo (key b)) xs)

/-- The texts of a list, put together with a separator. -/
def joinItems (separator : String) (items : List Value) : Except ShapeFault String :=
  match items.zipIdx.find? fun item => item.1.text?.isNone with
  | some (item, index) => .error (.itemNotText index item.typeName)
  | none => .ok (separator.intercalate (items.filterMap text?))

end Value

end ProjectReview
