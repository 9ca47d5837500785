import ProjectReview.Data.Assoc
import ProjectReview.Text.Digit
import ProjectReview.Text.Lines
import ProjectReview.Text.Quoted

set_option autoImplicit false

/-! # Command-line arguments

`Parser.parse` reads a list of arguments by a description of the options and positional arguments of
a command. An option may be cut short as long as one option alone fits, its value may follow an
equals sign, and two hyphens by themselves end the options. An argument that starts with a hyphen is
an option, unless it is a single hyphen, a negative number or holds a space.

A positional argument may stand for a command of its own, which takes all arguments behind it.
Arguments that nothing takes are handed back. -/

namespace ProjectReview

/-- What an option does with an argument. -/
inductive OptionKind where
  /-- It takes one value; the last one counts. -/
  | value
  /-- It takes one value each time; all of them count. -/
  | values
  /-- It takes no value. -/
  | flag
  /-- It asks for help. -/
  | help
deriving DecidableEq, Repr

/-- An option: its spellings, where its value goes, and what it does. -/
structure OptionSpec where
  names : List String
  target : String
  kind : OptionKind
deriving DecidableEq, Repr

/-- A positional argument. -/
inductive Positional where
  /-- It must be given. -/
  | needed (target : String)
  /-- It may be left out. -/
  | optional (target : String)
  /-- It names a command, which takes the arguments behind it. -/
  | command (target : String) (needed : Bool) (choices : List String)
deriving DecidableEq, Repr

/-- The options and positional arguments of a command, with its full name and its summary. -/
structure Parser where
  name : String
  usage : String
  options : List OptionSpec
  positionals : List Positional

/-- Why arguments are refused: the command that refuses them, its summary, and the reason. -/
inductive ArgumentFault where
  | refused (command usage reason : String)
  | helpAsked
deriving DecidableEq, Repr

/-- What is printed below the summary for refused arguments. -/
def ArgumentFault.message : ArgumentFault → String
  | refused command _ reason => command ++ ": error: " ++ reason
  | helpAsked => ""

/-- What a parser has read: the values of each target, the flags, the command with its arguments,
and the arguments that nothing took. -/
structure Parsed where
  values : Assoc (List String) := []
  flags : List String := []
  command : Option (String × List String) := none
  extras : List String := []

/-- An argument as a parser sees it. -/
inductive Word where
  | plain (text : String)
  | dashes
  | option (spec : Option OptionSpec) (name : String) (explicit : Option String) (text : String)
deriving DecidableEq, Repr

namespace Word

/-- The argument itself. -/
def text : Word → String
  | plain text => text
  | dashes => "--"
  | option _ _ _ text => text

/-- It is an option. -/
def isOption : Word → Bool
  | option .. => true
  | _ => false

end Word

namespace Parser

/-- All spellings of the options, each with its option. -/
def spellings (parser : Parser) : List (String × OptionSpec) :=
  parser.options.flatMap fun spec => spec.names.map fun name => (name, spec)

/-- Refuses the arguments. -/
def refuse {α : Type} (parser : Parser) (reason : String) : Except ArgumentFault α :=
  .error (.refused parser.name parser.usage reason)

/-- Refuses the use of an option. -/
def refuseOption {α : Type} (parser : Parser) (spec : OptionSpec) (reason : String) :
    Except ArgumentFault α :=
  parser.refuse ("argument " ++ joinTexts "/" spec.names ++ ": " ++ reason)

/-- The part of an argument before an equals sign, and the part behind it if there is one. -/
def splitEquals (cs : List Char) : List Char × Option (List Char) :=
  match cs.dropWhile (· ≠ '=') with
  | _ :: value => (cs.takeWhile (· ≠ '='), some value)
  | [] => (cs, none)

/-- The options that an argument may be short for, with the value it carries. -/
def candidates (parser : Parser) (text : String) : List (OptionSpec × String × Option String) :=
  match text.toList with
  | '-' :: '-' :: _ =>
    let (start, explicit) := splitEquals text.toList
    (parser.spellings.filter fun (name, _) => start.isPrefixOf name.toList).map
      fun (name, spec) => (spec, name, explicit.map String.ofList)
  | cs =>
    parser.spellings.filterMap fun (name, spec) =>
      if name.toList = cs.take 2 then some (spec, name, some (String.ofList (cs.drop 2)))
      else if cs.isPrefixOf name.toList then some (spec, name, none)
      else none

/-- The text is a negative number, perhaps with a line end behind it. -/
def isNegativeNumber (cs : List Char) : Bool :=
  let isDigit (c : Char) : Bool := (digitValue? c).isSome
  match if cs.getLast? = some '\n' then cs.dropLast else cs with
  | '-' :: body =>
    let whole := body.takeWhile isDigit
    match body.drop whole.length with
    | [] => !whole.isEmpty
    | '.' :: fraction => !fraction.isEmpty && fraction.all isDigit
    | _ => false
  | _ => false

/-- An argument as the parser sees it, before the two hyphens that end the options. -/
def classify (parser : Parser) (text : String) : Except ArgumentFault Word :=
  let cs := text.toList
  let exact (name : String) : Option OptionSpec := Assoc.get? parser.spellings name
  match cs with
  | '-' :: _ :: _ =>
    match exact text with
    | some spec => .ok (.option (some spec) text none text)
    | none =>
      let (start, explicit) := splitEquals cs
      match explicit, exact (String.ofList start) with
      | some value, some spec =>
        .ok (.option (some spec) (String.ofList start) (some (String.ofList value)) text)
      | _, _ =>
        match parser.candidates text with
        | [(spec, name, value)] => .ok (.option (some spec) name value text)
        | [] =>
          if isNegativeNumber cs || cs.contains ' ' then .ok (.plain text)
          else .ok (.option none text none text)
        | several =>
          parser.refuse ("ambiguous option: " ++ text ++ " could match " ++
            joinTexts ", " (several.map fun c => c.2.1))
  | _ => .ok (.plain text)

/-- The arguments as the parser sees them. -/
def classifyAll (parser : Parser) : List String → Except ArgumentFault (List Word)
  | [] => .ok []
  | "--" :: rest => .ok (.dashes :: rest.map .plain)
  | text :: rest => do
    let word ← parser.classify text
    let words ← parser.classifyAll rest
    pure (word :: words)

/-- How many words a plain argument takes from the front, with the two hyphens around it, and
whether it finds one. -/
def plainCount (words : List Word) : Nat × Bool :=
  let before := (words.takeWhile (· = .dashes)).length
  match words.drop before with
  | .plain _ :: rest => (before + 1 + (rest.takeWhile (· = .dashes)).length, true)
  | _ => (before, false)

/-- How many words each positional argument takes from the front, for as many of them as can be
served. -/
def takenBy : List Positional → List Word → List (Positional × Nat)
  | [], _ => []
  | positional :: rest, words =>
    let (count, found) := plainCount words
    match positional with
    | .needed _ => if found then (positional, count) :: takenBy rest (words.drop count) else []
    | .optional _ => (positional, count) :: takenBy rest (words.drop count)
    | .command .. => if found then [(positional, words.length)] else []

/-- Hands words to a positional argument. -/
def fill (parser : Parser) (parsed : Parsed) (positional : Positional) (words : List Word) :
    Except ArgumentFault Parsed :=
  let given := (words.filter (· ≠ .dashes)).map Word.text
  match positional with
  | .needed target | .optional target =>
    match given with
    | [] => .ok parsed
    | value :: _ => .ok { parsed with values := parsed.values.set target [value] }
  | .command target _ choices =>
    match words.map Word.text with
    | [] => .ok parsed
    | name :: rest =>
      if choices.contains name then
        .ok { parsed with command := some (name, rest), values := parsed.values.set target [name] }
      else
        parser.refuse ("argument " ++ target ++ ": invalid choice: " ++ quoted name ++
          " (choose from " ++ joinTexts ", " (choices.map quoted) ++ ")")

/-- Hands the words at the front to the positional arguments: what has been read, the positional
arguments still to be served and the words left. -/
def fillAll (parser : Parser) (parsed : Parsed) (positionals : List Positional) (words : List Word) :
    Except ArgumentFault (Parsed × List Positional × List Word) := do
  let taken := takenBy positionals words
  let (parsed, words) ← taken.foldlM (fun (parsed, words) (positional, count) => do
    let parsed ← parser.fill parsed positional (words.take count)
    pure (parsed, words.drop count)) (parsed, words)
  pure (parsed, positionals.drop taken.length, words)

/-- Takes an option with its value, if it has one, and gives the words behind. -/
def takeOption (parser : Parser) (parsed : Parsed) (spec : OptionSpec) (name : String)
    (explicit : Option String) (rest : List Word) : Except ArgumentFault (Parsed × List Word) :=
  let store (value : String) : Parsed :=
    let values := match spec.kind with
      | .values => (parsed.values.get? spec.target).getD [] ++ [value]
      | _ => [value]
    { parsed with values := parsed.values.set spec.target values }
  let ignored (value : String) : Except ArgumentFault (Parsed × List Word) :=
    parser.refuseOption spec ("ignored explicit argument " ++ quoted value)
  match spec.kind, explicit with
  | .flag, none => .ok ({ parsed with flags := parsed.flags ++ [spec.target] }, rest)
  | .help, none => .error .helpAsked
  | .help, some value =>
    -- The letters behind a short option are further short options.
    if value ≠ "" ∧ name.length = 2 ∧ value.toList.head? = some 'h' then .error .helpAsked
    else ignored value
  | .flag, some value => ignored value
  | _, some value => .ok (store value, rest)
  | _, none =>
    match rest with
    | .plain value :: rest => .ok (store value, rest)
    | _ => parser.refuseOption spec "expected one argument"

/-- Reads words until none is left. -/
def consume (parser : Parser) :
    Nat → Parsed → List Positional → List Word → Except ArgumentFault (Parsed × List Positional)
  | 0, parsed, positionals, _ => .ok (parsed, positionals)
  | fuel + 1, parsed, positionals, words =>
    if !words.any Word.isOption then do
      let (parsed, positionals, left) ← parser.fillAll parsed positionals words
      pure ({ parsed with extras := parsed.extras ++ left.map Word.text }, positionals)
    else match words with
      | .option none _ _ text :: rest =>
        parser.consume fuel { parsed with extras := parsed.extras ++ [text] } positionals rest
      | .option (some spec) name explicit _ :: rest => do
        let (parsed, rest) ← parser.takeOption parsed spec name explicit rest
        parser.consume fuel parsed positionals rest
      | _ => do
        let (filled, unserved, left) ← parser.fillAll parsed positionals words
        if left.length < words.length then parser.consume fuel filled unserved left
        else
          let skipped := words.takeWhile fun word => !word.isOption
          parser.consume fuel { filled with extras := filled.extras ++ skipped.map Word.text }
            unserved (words.drop skipped.length)

/-- The positional arguments that must still be given. -/
def missing (positionals : List Positional) : List String :=
  positionals.filterMap fun
    | .needed target => some target
    | .command target needed _ => if needed then some target else none
    | .optional _ => none

/-- Reads arguments. -/
def parse (parser : Parser) (arguments : List String) : Except ArgumentFault Parsed := do
  let words ← parser.classifyAll arguments
  let (parsed, left) ← parser.consume (2 * words.length + 1) {} parser.positionals words
  match missing left with
  | [] => pure parsed
  | targets => parser.refuse ("the following arguments are required: " ++ joinTexts ", " targets)

end Parser

end ProjectReview
