import ProjectReview.Data.Assoc
import ProjectReview.Number.Binary64
import ProjectReview.Text.Quoted

set_option autoImplicit false

/-! # Data values

A `Value` is what a data document holds: a configuration file, a project manifest or the metadata of
a package. Tables keep the order of their keys. A date or time is kept by its text.

`shown` is the text of a value as messages and tables of settings show it: a text by itself,
everything else as `listed` writes it inside lists, where texts are quoted. -/

namespace ProjectReview

/-- A value of a data document. -/
inductive Value where
  | null
  | bool (b : Bool)
  | int (n : Int)
  | float (x : Binary64)
  | text (s : String)
  | list (items : List Value)
  | table (fields : List (String × Value))
  | moment (s : String)
deriving Repr, Inhabited, BEq

namespace Value

/-- A list of texts. -/
def texts (xs : List String) : Value :=
  .list (xs.map .text)

/-- The text of a text value. -/
def text? : Value → Option String
  | .text s => some s
  | _ => none

/-- The name of a value's type, as messages give it. -/
def typeName : Value → String
  | .null => "NoneType"
  | .bool _ => "bool"
  | .int _ => "int"
  | .float _ => "float"
  | .text _ => "str"
  | .list _ => "list"
  | .table _ => "dict"
  | .moment _ => "datetime"

mutual

/-- The text of a value inside a list or a table. -/
def listed : Value → String
  | .null => "None"
  | .bool b => if b then "True" else "False"
  | .int n => toString n
  | .float x => x.render
  | .text s => quoted s
  | .list items => "[" ++ listedItems items ++ "]"
  | .table fields => "\x7b" ++ listedFields fields ++ "\x7d"
  | .moment s => s

/-- The texts of the items of a list. -/
def listedItems : List Value → String
  | [] => ""
  | [item] => listed item
  | item :: rest => listed item ++ ", " ++ listedItems rest

/-- The texts of the fields of a table. -/
def listedFields : List (String × Value) → String
  | [] => ""
  | [(key, value)] => quoted key ++ ": " ++ listed value
  | (key, value) :: rest => quoted key ++ ": " ++ listed value ++ ", " ++ listedFields rest

end

/-- The text of a value by itself. -/
def shown : Value → String
  | .text s => s
  | value => value.listed

end Value

end ProjectReview
