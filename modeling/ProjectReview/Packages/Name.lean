import ProjectReview.Text.Blank

set_option autoImplicit false

/-! # Package names

A package name starts with a letter or digit of ASCII and goes on with letters, digits, dots,
underscores and hyphens. Two names mean the same package when they agree in their `normalName`: runs
of dots, underscores and hyphens count as one underscore, and case does not count. -/

namespace ProjectReview

/-- The character may start the name of a package. -/
def startsPackageName (c : Char) : Bool :=
  c.isAlphanum

/-- The character joins the words of a package's name. -/
def joinsPackageName (c : Char) : Bool :=
  c == '.' || c == '_' || c == '-'

/-- The character may stand in the name of a package. -/
def inPackageName (c : Char) : Bool :=
  c.isAlphanum || joinsPackageName c

/-- The name at the front of a requirement, after blanks. -/
def requirementName (requirement : String) : Option String :=
  match requirement.toList.dropWhile isBlank with
  | first :: rest =>
    if startsPackageName first then some (String.ofList (first :: rest.takeWhile inPackageName))
    else none
  | [] => none

/-- Joins written as one underscore each, given whether the character before is a join. -/
def collapseJoins : Bool → List Char → List Char
  | _, [] => []
  | afterJoin, c :: rest =>
    if joinsPackageName c then
      if afterJoin then collapseJoins true rest else '_' :: collapseJoins true rest
    else c.toLower :: collapseJoins false rest

/-- The form in which package names are compared. -/
def normalName (name : String) : String :=
  String.ofList (collapseJoins false name.toList)

end ProjectReview
