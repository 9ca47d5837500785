import ProjectReview.Data.Shape
import ProjectReview.Json.Reader
import ProjectReview.Source.Fix
import ProjectReview.Text.Lines
import ProjectReview.Text.Utf8

set_option autoImplicit false

/-! # Faults

Everything that can make an operation of the library fail, as one type of causes. `Fault.label`
names the kind of a fault in messages and logs, and `Fault.message` words it. -/

namespace ProjectReview

/-- A module that could not be parsed: its path, why, and the line if one is to blame. -/
structure ParseFault where
  path : String
  reason : String
  line : Option Nat
deriving DecidableEq, Repr

/-- The wording of a parse fault. -/
def ParseFault.message (fault : ParseFault) : String :=
  let place := match fault.line with
    | some line => if line = 0 then fault.path else fault.path ++ ":" ++ toString line
    | none => fault.path
  "cannot parse " ++ place ++ ": " ++ fault.reason

/-- Why an operation on files fails. -/
inductive FileProblem where
  | notFound
  | notADirectory
  | isADirectory
  | alreadyExists
  | tooManyLinks
deriving DecidableEq, Repr

/-- A failed operation on the file at a path. -/
structure FileFault where
  problem : FileProblem
  path : String
deriving DecidableEq, Repr

namespace FileFault

/-- The kind of a file fault, as messages name it. -/
def label (fault : FileFault) : String :=
  match fault.problem with
  | .notFound => "FileNotFoundError"
  | .notADirectory => "NotADirectoryError"
  | .isADirectory => "IsADirectoryError"
  | .alreadyExists => "FileExistsError"
  | .tooManyLinks => "OSError"

/-- The wording of a file fault. -/
def message (fault : FileFault) : String :=
  let problem := match fault.problem with
    | .notFound => "[Errno 2] No such file or directory"
    | .notADirectory => "[Errno 20] Not a directory"
    | .isADirectory => "[Errno 21] Is a directory"
    | .alreadyExists => "[Errno 17] File exists"
    | .tooManyLinks => "[Errno 40] Too many levels of symbolic links"
  problem ++ ": " ++ quoted fault.path

end FileFault

/-- Everything that can make an operation fail. -/
inductive Fault where
  /-- A batch of fixes was refused. -/
  | fix (fault : FixFault)
  /-- Data has the wrong shape. -/
  | shape (fault : ShapeFault)
  /-- A setting has no such name. -/
  | unknownKey (key : String)
  /-- A setting cannot be negative. -/
  | negative (key raw : String)
  /-- A review's callback gave up. -/
  | callback (text : String)
  /-- Several reviews have the same name. -/
  | duplicateNames (names : List String)
  /-- Something other than an inspector was registered. -/
  | notAnInspector (type : String)
  /-- A module could not be parsed. -/
  | parse (fault : ParseFault)
  /-- A file could not be used. -/
  | file (fault : FileFault)
  /-- A file's bytes are not text. -/
  | decode (fault : Utf8Fault)
  /-- The links at a path go round in a loop. -/
  | linkLoop (path : String)
  /-- A data document is not well formed. -/
  | json (document : String) (fault : Json.Fault)
  /-- A file pattern is empty. -/
  | emptyPattern
  /-- A review specification is not of the required form. -/
  | malformedSpec (spec : String)
  /-- There is no such package or module. -/
  | noModule (text : String)
  /-- A module, class or object lacks the attribute. -/
  | noMember (text : String)
  /-- A specification names something that is not a review. -/
  | notAReview (spec : String)
  /-- A factory cannot be called without arguments. -/
  | missingArguments (text : String)
  /-- A factory refused its input. -/
  | refused (text : String)
  /-- A factory missed a key. -/
  | lost (key : String)
  /-- Reviews could not be loaded; the text lists them. -/
  | notLoaded (text : String)
  /-- A row of a package's record has the wrong number of columns. -/
  | malformedRecord (columns : Nat)
  /-- The user interrupted the program. -/
  | interrupted
deriving DecidableEq, Repr

namespace Fault

/-- The kind of a fault, as messages and logs name it. -/
def label : Fault → String
  | fix (.collision ..) => "CollisionDetected"
  | fix (.outOfRange ..) => "FixOutOfRange"
  | fix .unchanged => "ResultUnchanged"
  | shape fault => fault.label
  | unknownKey .. | lost .. => "KeyError"
  | negative .. | duplicateNames .. | emptyPattern | malformedSpec .. | refused .. => "ValueError"
  | callback .. | linkLoop .. => "RuntimeError"
  | notAnInspector .. | notAReview .. | missingArguments .. | malformedRecord .. =>
    "TypeError"
  | parse .. => "ModuleParseError"
  | file fault => fault.label
  | decode .. => "UnicodeDecodeError"
  | json _ (.malformed ..) => "JSONDecodeError"
  | json _ (.number ..) => "ValueError"
  | noModule .. => "ModuleNotFoundError"
  | noMember .. => "AttributeError"
  | notLoaded .. => "ImportError"
  | interrupted => "KeyboardInterrupt"

/-- The wording of a fault. -/
def message : Fault → String
  | fix fault => fault.message
  | shape fault => fault.message
  | unknownKey key => quoted ("Unknown config key: " ++ key)
  | negative key raw => "Expected a non-negative integer for " ++ key ++ ", got: " ++ raw
  | callback text => text
  | duplicateNames names => "Duplicate review name(s): " ++ joinTexts ", " names
  | notAnInspector type => "expected an Inspector, got " ++ type
  | parse fault => fault.message
  | file fault => fault.message
  | decode fault => fault.message
  | linkLoop path => "Symlink loop from " ++ quoted path
  | json document fault => fault.message document
  | emptyPattern => "empty pattern"
  | malformedSpec spec => "expected 'package.module:attribute', got " ++ quoted spec
  | noModule text => text
  | noMember text => text
  | notAReview spec => spec ++ " is not a Review or a list of Reviews"
  | missingArguments text => text
  | refused text => text
  | lost key => quoted key
  | notLoaded text => text
  | malformedRecord columns =>
    let function := "Distribution.files.<locals>.make_file()"
    if columns = 0 then function ++ " missing 1 required positional argument: 'name'"
    else function ++ " takes from 1 to 3 positional arguments but " ++ toString columns ++
      " were given"
  | interrupted => ""

/-- A fault as a log gives it: its kind and its wording. -/
def summary (fault : Fault) : String :=
  fault.label ++ ": " ++ fault.message

end Fault

end ProjectReview
