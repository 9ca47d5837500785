import ProjectReview.Text.Lines

set_option autoImplicit false

/-! # Searching text

`occurrences word s` lists the places where `word` stands in `s`, from the left and without
overlaps; the empty word stands at every place, the end included. `replaceAll` puts another text at
those places, and `holds` says whether there are any. -/

namespace ProjectReview

/-- The places of a word from a position on, passing over the first `skip` characters. -/
def occurrencesFrom (word : List Char) : Nat → Nat → List Char → List Nat
  | position, skip, [] => if skip = 0 ∧ word = [] then [position] else []
  | position, skip + 1, _ :: rest => occurrencesFrom word (position + 1) skip rest
  | position, 0, c :: rest =>
    if word.isPrefixOf (c :: rest) then
      position :: occurrencesFrom word (position + 1) (word.length - 1) rest
    else occurrencesFrom word (position + 1) 0 rest

/-- The places where a word stands in a text, without overlaps. -/
def occurrences (word s : List Char) : List Nat :=
  occurrencesFrom word 0 0 s

/-- Some place in the text holds the word. -/
def holds (word s : String) : Bool :=
  !(occurrences word.toList s.toList).isEmpty

/-- The characters with `new` in place of each occurrence of the non-empty `old`, passing over the
first `skip` characters. -/
def replaceFrom (old new : List Char) : Nat → List Char → List Char
  | _, [] => []
  | skip + 1, _ :: rest => replaceFrom old new skip rest
  | 0, c :: rest =>
    if old.isPrefixOf (c :: rest) then new ++ replaceFrom old new (old.length - 1) rest
    else c :: replaceFrom old new 0 rest

/-- The text with `new` in place of each occurrence of the non-empty `old`. -/
def replaceAll (old new s : String) : String :=
  String.ofList (replaceFrom old.toList new.toList 0 s.toList)

/-- The text starts with another. -/
def startsWith (s start : String) : Bool :=
  start.toList.isPrefixOf s.toList

/-- The text ends with another. -/
def endsWith (s stop : String) : Bool :=
  stop.toList.isSuffixOf s.toList

end ProjectReview
