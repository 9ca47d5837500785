import ProjectReview.Journal

set_option autoImplicit false

/-! # The console

Printing as journal entries: lines on either stream, in color when the output goes to a terminal
that takes colors. -/

namespace ProjectReview

/-- The styles that text is printed in. -/
inductive Style where
  | bold
  | dim
  | red
  | green
  | yellow
  | cyan
deriving DecidableEq, Repr

/-- The control sequence that starts a style. -/
def Style.start : Style → String
  | bold => "\x1b[1m"
  | dim => "\x1b[2m"
  | red => "\x1b[31m"
  | green => "\x1b[32m"
  | yellow => "\x1b[33m"
  | cyan => "\x1b[36m"

/-- The text in a style, if colors are on. -/
def paint (colors : Bool) (style : Style) (text : String) : String :=
  if colors then style.start ++ text ++ "\x1b[0m" else text

namespace Journaled

variable {ε : Type}

/-- Prints a line. -/
def print (line : String) : Journaled ε Unit :=
  note (.printed .out (line ++ "\n"))

/-- Prints a line to the error stream. -/
def printError (line : String) : Journaled ε Unit :=
  note (.printed .err (line ++ "\n"))

/-- Warns the user. -/
def warn (colors : Bool) (message : String) : Journaled ε Unit :=
  printError (paint colors .yellow ("  WARNING: " ++ message))

/-- Tells the user why a command gives up. -/
def complain (colors : Bool) (message : String) : Journaled ε Unit :=
  printError (paint colors .red ("  Error: " ++ message))

end Journaled

/-- What was printed to a stream. With `verbose`, the lines of the log go to the error stream. -/
def printedTo (stream : Stream) (verbose : Bool) (events : List Event) : String :=
  String.join (events.filterMap fun event =>
    match event with
    | .printed s text => if s = stream then some text else none
    | other =>
      if verbose ∧ stream = .err then
        other.logLine.map fun line => line.source ++ ": " ++ line.text ++ "\n"
      else none)

end ProjectReview
