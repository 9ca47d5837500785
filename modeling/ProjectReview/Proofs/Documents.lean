import Mathlib.Data.List.Basic
import Mathlib.Data.Nat.Digits.Defs
import ProjectReview.Json.Reader
import ProjectReview.Json.Writer
import ProjectReview.Proofs.Maps

set_option autoImplicit false

/-! # Documents are read as they were written

A value is `Plain` when it has no fractional numbers and no dates, its integers are not too long to
be read, and no table has a key twice. Such a value is read back from the document that is written
for it (`read_write`).

The proof goes along the writer. Each lemma reads what the writer puts down for one part, a
character, a numeral, a value, the items of a list or the fields of a table, with any characters
behind it that can stand there, and leaves these (`Reads`). The characters of a value are fuel
enough to read it. -/

namespace ProjectReview

/-- A value that documents give back: no fractional numbers and no dates, no integer with too many
    digits, and no table with a key twice. -/
inductive Value.Plain : Value → Prop
  | null : Plain .null
  | bool (b : Bool) : Plain (.bool b)
  | int {n : Int} (short : (Nat.toDigits 10 n.natAbs).length ≤ digitLimit) : Plain (.int n)
  | text (s : String) : Plain (.text s)
  | list {items : List Value} (plain : ∀ item ∈ items, Plain item) : Plain (.list items)
  | table {fields : List (String × Value)} (distinct : (Assoc.keys fields).Nodup)
      (plain : ∀ field ∈ fields, Plain field.2) : Plain (.table fields)

namespace Json

/-- At any position, a reader gives a value from what is to come and leaves the rest. -/
def Reads (reader : Cursor → Except Fault (Value × Cursor)) (text : List Char) (value : Value)
    (rest : List Char) : Prop :=
  ∀ position, ∃ behind, reader ⟨position, text⟩ = .ok (value, ⟨behind, rest⟩)

/-- Inside the quotes that open at `start`, the characters of a text are read and the rest is
    left. -/
def ReadsText (start : Nat) (text cs rest : List Char) : Prop :=
  ∀ position, ∃ behind, textAt start position 0 text = .ok (cs, ⟨behind, rest⟩)

/-! ## Texts -/

theorem hexValue?_hexDigit : ∀ n < 16, hexValue? (hexDigit n) = some n := by
  decide

theorem hex4?_hexDigits {n : Nat} (h : n < 0x10000) (rest : List Char) :
    hex4? (hexDigits 4 n ++ rest) = some n := by
  have hdigit (m : Nat) : hexValue? (hexDigit (m % 16)) = some (m % 16) :=
    hexValue?_hexDigit _ (Nat.mod_lt _ (by decide))
  simp only [hexDigits, List.nil_append, List.cons_append, hex4?, hdigit, Option.some.injEq]
  omega

theorem length_hexDigits (width n : Nat) : (hexDigits width n).length = width := by
  induction width generalizing n with
  | zero => rfl
  | succ width ih => rw [hexDigits, List.length_append, ih, List.length_singleton]

section Text

variable {start : Nat} {text rest cs : List Char} {c e : Char}

theorem textAt_covered (start position : Nat) (covered rest : List Char) :
    textAt start position covered.length (covered ++ rest)
      = textAt start (position + covered.length) 0 rest := by
  induction covered generalizing position with
  | nil => rfl
  | cons c more ih =>
    rw [List.length_cons, List.cons_append, textAt, ih]
    congr 1
    omega

/-- What a text is read from does not end before its closing quote. -/
theorem ReadsText.ne_nil (h : ReadsText start text cs rest) : text ≠ [] := by
  rintro rfl
  obtain ⟨behind, hread⟩ := h 0
  cases hread

theorem ReadsText.escape (h : ReadsText start text cs rest) (escape : List Char)
    (hescape : ∀ position, escapeAt start position (escape ++ text) = .ok (e, escape.length)) :
    ReadsText start (backslash :: (escape ++ text)) (e :: cs) rest := by
  intro position
  obtain ⟨behind, hread⟩ := h (position + 1 + escape.length)
  refine ⟨behind, ?_⟩
  have hquote : backslash ≠ doubleQuote := by decide
  simp only [textAt, if_neg hquote, if_true, hescape, textAt_covered, hread, Except.map]

theorem ReadsText.plainChar (h : ReadsText start text cs rest) (hquote : c ≠ doubleQuote)
    (hbackslash : c ≠ backslash) (hcontrol : 0x20 ≤ c.toNat) :
    ReadsText start (c :: text) (c :: cs) rest := by
  intro position
  obtain ⟨behind, hread⟩ := h (position + 1)
  refine ⟨behind, ?_⟩
  simp only [textAt, if_neg hquote, if_neg hbackslash, if_neg (Nat.not_lt.2 hcontrol), hread,
    Except.map]

/-- An escape by code unit is read by that unit. -/
theorem escapeAt_hexDigits (start position : Nat) {unit : Nat} (hunit : unit < 0x10000)
    (htext : text ≠ []) :
    escapeAt start position ('u' :: (hexDigits 4 unit ++ text))
      = unitEscape position unit text := by
  have hlong : ¬ ((hexDigits 4 unit ++ text).take 5).length < 5 := by
    have := List.length_pos_iff.2 htext
    rw [List.length_take, List.length_append, length_hexDigits]
    omega
  have hdrop : (hexDigits 4 unit ++ text).drop 4 = text := List.drop_left' (length_hexDigits 4 unit)
  simp only [escapeAt, if_neg hlong, hex4?_hexDigits hunit, hdrop]

theorem ReadsText.unit (h : ReadsText start text cs rest) (hc : c.toNat < 0x10000) :
    ReadsText start (writeUnit c.toNat ++ text) (c :: cs) rest := by
  have hvalid : c.toNat < 0xd800 ∨ 0xdfff < c.toNat ∧ c.toNat < 0x110000 := c.valid
  refine h.escape ('u' :: hexDigits 4 c.toNat) fun position => ?_
  rw [List.cons_append, escapeAt_hexDigits start position hc h.ne_nil, unitEscape,
    if_neg (by omega), if_neg (by omega), Char.ofNat_toNat, List.length_cons, length_hexDigits]

/-- A character that takes two code units. -/
theorem ReadsText.units (h : ReadsText start text cs rest) (hc : 0x10000 ≤ c.toNat) :
    ReadsText start (writeUnit (0xd800 + (c.toNat - 0x10000) / 0x400) ++
      writeUnit (0xdc00 + (c.toNat - 0x10000) % 0x400) ++ text) (c :: cs) rest := by
  have hvalid : c.toNat < 0xd800 ∨ 0xdfff < c.toNat ∧ c.toNat < 0x110000 := c.valid
  generalize hhigh : 0xd800 + (c.toNat - 0x10000) / 0x400 = high
  generalize hlow : 0xdc00 + (c.toNat - 0x10000) % 0x400 = low
  have htext := List.length_pos_iff.2 h.ne_nil
  have hlong : 6 < ((writeUnit low ++ text).take 7).length := by
    simp only [writeUnit, List.length_take, List.length_append, List.length_cons, length_hexDigits]
    omega
  have hfront : (writeUnit low ++ text).take 2 = [backslash, 'u'] := rfl
  have hback : (writeUnit low ++ text).drop 2 = hexDigits 4 low ++ text := rfl
  -- The two units together give the character.
  have hchar : 0x10000 + (high - 0xd800) * 0x400 + (low - 0xdc00) = c.toNat := by omega
  refine h.escape ('u' :: (hexDigits 4 high ++ writeUnit low)) fun position => ?_
  rw [List.cons_append, List.append_assoc,
    escapeAt_hexDigits start position (by omega) (by simp [writeUnit]), unitEscape,
    if_pos ⟨by omega, by omega, hlong, hfront⟩, hback, hex4?_hexDigits (by omega)]
  simp only [hchar, Char.ofNat_toNat]
  rw [if_pos (by omega)]
  simp [writeUnit, length_hexDigits]

/-- **A character is read as it was written.** -/
theorem reads_writeChar (h : ReadsText start text cs rest) (c : Char) :
    ReadsText start (writeChar c ++ text) (c :: cs) rest := by
  -- The letter of a short escape, which is not that of an escape by code unit.
  have hshort (letter : Char) (hletter : letter ≠ 'u') (he : shortEscape? letter = some c) :
      ReadsText start ([backslash, letter] ++ text) (c :: cs) rest := by
    refine h.escape [letter] fun position => ?_
    rw [List.singleton_append, escapeAt]
    · rw [he]
      rfl
    · exact hletter
  rw [writeChar]
  split_ifs with hquote hfeed hreturn htab hback hform hprintable hunit
  · rcases hquote with rfl | rfl
    · exact hshort _ (by decide) (by decide)
    · exact hshort _ (by decide) (by decide)
  · subst hfeed
    exact hshort _ (by decide) (by decide)
  · subst hreturn
    exact hshort _ (by decide) (by decide)
  · subst htab
    exact hshort _ (by decide) (by decide)
  · subst hback
    exact hshort _ (by decide) (by decide)
  · subst hform
    exact hshort _ (by decide) (by decide)
  · rw [not_or] at hquote
    exact h.plainChar hquote.1 hquote.2 hprintable.1
  · exact h.unit hunit
  · exact h.units (by omega)

theorem reads_writeText (start : Nat) (cs rest : List Char) :
    ReadsText start (cs.flatMap writeChar ++ doubleQuote :: rest) cs rest := by
  induction cs with
  | nil => exact fun position => ⟨position + 1, rfl⟩
  | cons c more ih =>
    rw [List.flatMap_cons, List.append_assoc]
    exact reads_writeChar ih c

end Text

/-! ## Numerals -/

/-- What stands behind a value: the line ends there, or a comma follows. -/
def EndsValue (rest : List Char) : Prop :=
  ∃ c more, rest = c :: more ∧ (c = '\n' ∨ c = ',')

theorem isDigit_of_mem_toDigits {n : Nat} {c : Char} (h : c ∈ Nat.toDigits 10 n) :
    isDigit c = true := by
  have hdigit := Nat.isDigit_of_mem_toDigits (by decide) (by decide) h
  rw [Char.isDigit, Bool.and_eq_true, decide_eq_true_eq, decide_eq_true_eq] at hdigit
  rw [isDigit, Bool.and_eq_true, decide_eq_true_eq, decide_eq_true_eq]
  exact ⟨UInt32.le_iff_toNat_le.1 hdigit.1, UInt32.le_iff_toNat_le.1 hdigit.2⟩

theorem toDigits_head (n : Nat) : ∃ c more, Nat.toDigits 10 n = c :: more ∧ isDigit c = true := by
  obtain ⟨c, more, h⟩ := List.exists_cons_of_ne_nil (Nat.toDigits_ne_nil (n := n) (b := 10))
  exact ⟨c, more, h, isDigit_of_mem_toDigits (n := n) (h ▸ List.mem_cons_self)⟩

/-- Only zero is written with a zero in front. -/
theorem toDigits_front {n : Nat} (h : n ≠ 0) :
    ∃ c more, Nat.toDigits 10 n = c :: more ∧ c ≠ '0' := by
  induction n using Nat.strongRecOn with
  | ind n ih =>
    by_cases hn : n < 10
    · refine ⟨_, _, Nat.toDigits_of_lt_base hn, ?_⟩
      have hdigits : ∀ m < 10, m ≠ 0 → Nat.digitChar m ≠ '0' := by decide
      exact hdigits n hn h
    · obtain ⟨c, more, hfront, hc⟩ := ih (n / 10) (by omega) (by omega)
      rw [Nat.toDigits_of_base_le (by decide) (by omega), hfront]
      exact ⟨c, _, rfl, hc⟩

theorem natOf_toDigits (n : Nat) : natOf (Nat.toDigits 10 n) = n := by
  rw [natOf, ofDigits, List.foldl_map]
  exact Nat.ofDigitChars_ten_toDigits

section Numeral

variable {rest : List Char}

theorem takeWhile_isDigit {ds : List Char} (hds : ∀ c ∈ ds, isDigit c = true)
    (hrest : EndsValue rest) : (ds ++ rest).takeWhile isDigit = ds := by
  obtain ⟨c, more, rfl, hc⟩ := hrest
  rw [List.takeWhile_append_of_pos hds, List.takeWhile_cons_of_neg, List.append_nil]
  rcases hc with rfl | rfl <;> decide

theorem fractionOf_rest (hrest : EndsValue rest) : fractionOf rest = ([], rest) := by
  obtain ⟨c, more, rfl, rfl | rfl⟩ := hrest <;> rfl

theorem exponentOf_rest (hrest : EndsValue rest) : exponentOf rest = (none, rest) := by
  obtain ⟨c, more, rfl, rfl | rfl⟩ := hrest <;> rfl

/-- The digits of a number are the whole part of its numeral. -/
theorem wholeOf_toDigits (n : Nat) (hrest : EndsValue rest) :
    wholeOf (Nat.toDigits 10 n ++ rest) = Nat.toDigits 10 n := by
  by_cases hn : n = 0
  · rw [hn]
    rfl
  · obtain ⟨c, more, hfront, hc⟩ := toDigits_front hn
    have hall := takeWhile_isDigit (fun _ => isDigit_of_mem_toDigits (n := n)) hrest
    rw [hfront, List.cons_append] at hall ⊢
    rw [wholeOf, hall]
    exact fun _ h => hc (List.cons.inj h).1

/-- The sign that is written for a number. -/
def minusSign (negative : Bool) : List Char :=
  if negative then ['-'] else []

theorem minusOf_numeral (negative : Bool) (n : Nat) (rest : List Char) :
    minusOf (minusSign negative ++ (Nat.toDigits 10 n ++ rest))
      = (negative, Nat.toDigits 10 n ++ rest) := by
  cases negative with
  | true => rfl
  | false =>
    obtain ⟨c, more, hfront, hc⟩ := toDigits_head n
    rw [hfront, List.cons_append, minusSign, if_neg Bool.false_ne_true, List.nil_append, minusOf]
    rintro _ h
    rw [(List.cons.inj h).1] at hc
    exact absurd hc (by decide)

/-- **A numeral is read as it was written.** -/
theorem reads_numeral (negative : Bool) {n : Nat}
    (hshort : (Nat.toDigits 10 n).length ≤ digitLimit) (hrest : EndsValue rest) :
    Reads numeralAt (minusSign negative ++ (Nat.toDigits 10 n ++ rest))
      (.int (if negative then -(n : Int) else n)) rest := by
  intro position
  have hne : (Nat.toDigits 10 n).isEmpty = false := by simp
  have hnumeral : numeral negative (Nat.toDigits 10 n) [] none
      = .ok (.int (if negative then -(n : Int) else n)) := by
    rw [numeral, if_neg (Nat.not_lt.2 hshort), natOf_toDigits]
  refine ⟨position + ((minusSign negative ++ (Nat.toDigits 10 n ++ rest)).length - rest.length), ?_⟩
  simp only [numeralAt, minusOf_numeral, wholeOf_toDigits n hrest, hne, Bool.false_eq_true,
    if_false, List.drop_left, fractionOf_rest hrest, exponentOf_rest hrest, hnumeral, Except.map]

end Numeral

/-! ## Words and integers -/

section Scalar

variable {c : Char} {text rest : List Char}

/-- No word starts like a numeral. -/
theorem find?_keywords_numeral (negative : Bool) (n : Nat) (rest : List Char) :
    (keywords.find? fun keyword =>
      keyword.1.isPrefixOf (minusSign negative ++ (Nat.toDigits 10 n ++ rest))) = none := by
  obtain ⟨c, more, hfront, hc⟩ := toDigits_head n
  have hletter (letter : Char) (hletter : isDigit letter = false) : (letter == c) = false := by
    rw [beq_eq_false_iff_ne]
    rintro rfl
    exact Bool.false_ne_true (hletter.symm.trans hc)
  rw [hfront]
  cases negative with
  | true =>
    -- One word starts with a minus sign, but goes on with a letter.
    simp [keywords, minusSign, List.isPrefixOf, hletter 'I' rfl]
  | false =>
    simp [keywords, minusSign, List.isPrefixOf, hletter 'n' rfl, hletter 't' rfl, hletter 'f' rfl,
      hletter 'N' rfl, hletter 'I' rfl, hletter '-' rfl]

theorem writeAt_int (level : Nat) (n : Int) :
    writeAt level (.int n) = minusSign (decide (n < 0)) ++ Nat.toDigits 10 n.natAbs := by
  rw [writeAt, Int.toString_eq_repr, Int.repr_eq_if]
  by_cases hn : n < 0
  · have habs : (-n).toNat = n.natAbs := by omega
    rw [if_neg (by omega), habs, Nat.repr_eq_ofList_toDigits, decide_eq_true hn]
    simp [minusSign]
  · have habs : n.toNat = n.natAbs := by omega
    rw [if_pos (by omega), habs, Nat.repr_eq_ofList_toDigits, decide_eq_false hn]
    simp [minusSign]

/-- A character that an integer can start with. -/
def StartsInteger (c : Char) : Prop :=
  (c == '-' || isDigit c) = true

theorem StartsInteger.ne (h : StartsInteger c) (other : Char)
    (hother : (other == '-' || isDigit other) = false) : c ≠ other := by
  rintro rfl
  exact Bool.false_ne_true (hother.symm.trans h)

theorem writeAt_int_head (level : Nat) (n : Int) :
    ∃ c more, writeAt level (.int n) = c :: more ∧ StartsInteger c := by
  obtain ⟨c, more, hfront, hc⟩ := toDigits_head n.natAbs
  rw [writeAt_int, hfront]
  cases decide (n < 0) with
  | true => exact ⟨'-', c :: more, rfl, rfl⟩
  | false => exact ⟨c, more, rfl, by rw [StartsInteger, hc, Bool.or_true]⟩

/-- What starts with no quote and no opening bracket is read as a word or a numeral. -/
theorem valueAt_scalar (fuel position : Nat) (hquote : c ≠ '\x22') (htable : c ≠ '\x7b')
    (hlist : c ≠ '[') :
    valueAt (fuel + 1) ⟨position, c :: text⟩ = scalarAt ⟨position, c :: text⟩ := by
  rw [valueAt]
  split <;> simp_all

end Scalar

/-! ## Values -/

/-- The value is read from what is written for it, at every level, with the fuel of its characters
    or more. -/
def ReadsBack (value : Value) : Prop :=
  ∀ level fuel rest, (writeAt level value).length ≤ fuel + 1 → EndsValue rest →
    Reads (valueAt (fuel + 1)) (writeAt level value ++ rest) value rest

theorem readsBack_null : ReadsBack .null :=
  fun _ _ _ _ _ position => ⟨position + 4, rfl⟩

theorem readsBack_bool (b : Bool) : ReadsBack (.bool b) := by
  intro level fuel rest _ _ position
  cases b with
  | true => exact ⟨position + 4, rfl⟩
  | false => exact ⟨position + 5, rfl⟩

theorem readsBack_int {n : Int} (hshort : (Nat.toDigits 10 n.natAbs).length ≤ digitLimit) :
    ReadsBack (.int n) := by
  intro level fuel rest _ hrest position
  obtain ⟨behind, hread⟩ := reads_numeral (decide (n < 0)) hshort hrest position
  have hvalue : (if decide (n < 0) then -(n.natAbs : Int) else n.natAbs) = n := by
    simp only [decide_eq_true_eq]
    split <;> omega
  have hscalar : scalarAt ⟨position, writeAt level (.int n) ++ rest⟩
      = .ok (.int n, ⟨behind, rest⟩) := by
    rw [writeAt_int, List.append_assoc, scalarAt, find?_keywords_numeral, hread, hvalue]
  obtain ⟨c, more, hhead, hc⟩ := writeAt_int_head level n
  refine ⟨behind, ?_⟩
  rw [hhead, List.cons_append] at hscalar ⊢
  rw [valueAt_scalar fuel position (hc.ne _ rfl) (hc.ne _ rfl) (hc.ne _ rfl), hscalar]

theorem valueAt_quote (fuel position : Nat) (text : List Char) :
    valueAt (fuel + 1) ⟨position, doubleQuote :: text⟩
      = (textAt position (position + 1) 0 text).map fun (cs, next) =>
          (.text (String.ofList cs), next) := rfl

theorem readsBack_text (s : String) : ReadsBack (.text s) := by
  intro level fuel rest _ _ position
  obtain ⟨behind, hread⟩ := reads_writeText position s.toList rest (position + 1)
  refine ⟨behind, ?_⟩
  simp only [writeAt, writeText, List.cons_append, List.append_assoc, List.nil_append,
    valueAt_quote, hread, Except.map, String.ofList_toList]

/-- No value starts with a blank or with the end of a list. -/
theorem writeAt_head {value : Value} (h : value.Plain) (level : Nat) :
    ∃ c more, writeAt level value = c :: more ∧ isSpace c = false ∧ c ≠ ']' := by
  cases h with
  | null => exact ⟨_, _, rfl, rfl, by decide⟩
  | bool b => cases b <;> exact ⟨_, _, rfl, rfl, by decide⟩
  | @int n _ =>
    obtain ⟨c, more, hhead, hc⟩ := writeAt_int_head level n
    refine ⟨c, more, hhead, ?_, hc.ne _ rfl⟩
    simp [isSpace, hc.ne ' ' rfl, hc.ne '\t' rfl, hc.ne '\n' rfl, hc.ne '\r' rfl]
  | text s => exact ⟨_, _, rfl, rfl, by decide⟩
  | @list items _ => cases items <;> exact ⟨'[', _, rfl, rfl, by decide⟩
  | @table fields _ _ => cases fields <;> exact ⟨'\x7b', _, rfl, rfl, by decide⟩

/-! ## Lists and tables -/

section Nested

variable {level : Nat} {rest : List Char}

theorem skipSpace_cons {c : Char} (hc : isSpace c = false) (position : Nat) (text : List Char) :
    skipSpace position (c :: text) = ⟨position, c :: text⟩ := by
  rw [skipSpace, if_neg (by simp [hc])]

theorem skipSpace_newLine {c : Char} (hc : isSpace c = false) (level position : Nat)
    (text : List Char) :
    ∃ behind, skipSpace position (newLine level ++ c :: text) = ⟨behind, c :: text⟩ := by
  have hblanks (n : Nat) : ∀ position, ∃ behind,
      skipSpace position (List.replicate n ' ' ++ c :: text) = ⟨behind, c :: text⟩ := by
    induction n with
    | zero => exact fun position => ⟨position, skipSpace_cons hc position text⟩
    | succ n ih => exact fun position => ih (position + 1)
  exact hblanks (2 * level) (position + 1)

theorem skipSpace_writeAt {value : Value} (h : value.Plain) (level position : Nat)
    (text : List Char) :
    ∃ behind, skipSpace position (newLine level ++ (writeAt level value ++ text))
      = ⟨behind, writeAt level value ++ text⟩ := by
  obtain ⟨c, more, hhead, hc, -⟩ := writeAt_head h level
  rw [hhead, List.cons_append]
  exact skipSpace_newLine hc level position (more ++ text)

theorem endsValue_newLine (level : Nat) (text : List Char) : EndsValue (newLine level ++ text) :=
  ⟨'\n', _, rfl, .inl rfl⟩

theorem endsValue_comma (text : List Char) : EndsValue (',' :: text) :=
  ⟨',', text, rfl, .inr rfl⟩

/-- The items of a list are read from one on up to the closing bracket. An item that has another
    behind it ends with a comma, the last one with the line. -/
theorem reads_items {item : Value} {items : List Value}
    (hplain : ∀ value ∈ items, value.Plain)
    (hread : ∀ value ∈ item :: items, ReadsBack value) {fuel : Nat}
    (hfuel : (writeAt level item).length + (writeItems level items).length ≤ fuel + 1)
    (outer : Nat) (rest : List Char) :
    Reads (itemsAt (fuel + 2))
      (writeAt level item ++ (writeItems level items ++ (newLine outer ++ ']' :: rest)))
      (.list (item :: items)) rest := by
  induction items generalizing item fuel with
  | nil =>
    intro position
    obtain ⟨behind, hitem⟩ := hread item List.mem_cons_self level fuel
      (newLine outer ++ ']' :: rest) (by omega) (endsValue_newLine outer _) position
    obtain ⟨last, hskip⟩ := skipSpace_newLine (c := ']') rfl outer behind rest
    refine ⟨last + 1, ?_⟩
    rw [writeItems, List.nil_append, itemsAt, hitem]
    simp only [Cursor.skip, hskip]
  | cons next items ih =>
    intro position
    obtain ⟨behind, hitem⟩ := hread item List.mem_cons_self level fuel
      (writeItems level (next :: items) ++ (newLine outer ++ ']' :: rest)) (by omega)
      (endsValue_comma _) position
    have hlength : (writeItems level (next :: items)).length
        = 2 + 2 * level + (writeAt level next).length + (writeItems level items).length := by
      simp [writeItems, newLine]
      omega
    -- The comma and the new line are fuel enough for the step to the next item.
    obtain ⟨fuel, rfl⟩ : ∃ fuel', fuel = fuel' + 1 := ⟨fuel - 1, by omega⟩
    obtain ⟨begin, hskip⟩ := skipSpace_writeAt (hplain next List.mem_cons_self) level (behind + 1)
      (writeItems level items ++ (newLine outer ++ ']' :: rest))
    obtain ⟨last, hitems⟩ := ih (fun value h => hplain value (List.mem_cons_of_mem _ h))
      (fun value h => hread value (List.mem_cons_of_mem _ h)) (show _ ≤ fuel + 1 by omega) begin
    refine ⟨last, ?_⟩
    rw [itemsAt, hitem]
    simp only [Cursor.skip, writeItems, List.cons_append, List.append_assoc,
      skipSpace_cons (c := ',') rfl, hskip, hitems]

/-- A field inside its table: the key, a colon, and the value. -/
def writeField (level : Nat) (field : String × Value) : List Char :=
  writeText field.1 ++ ([':', ' '] ++ writeAt level field.2)

/-- The three parts of a field are read one after the other. -/
theorem read_writeField {field : String × Value} (hplain : field.2.Plain)
    (hread : ReadsBack field.2) {fuel : Nat} (hfuel : (writeAt level field.2).length ≤ fuel + 1)
    (hrest : EndsValue rest) (position : Nat) :
    ∃ text key colon begin behind,
      writeField level field ++ rest = doubleQuote :: text ∧
      textAt position (position + 1) 0 text = .ok (field.1.toList, ⟨key, ':' :: colon⟩) ∧
      skipSpace (key + 1) colon = begin ∧
      valueAt (fuel + 1) begin = .ok (field.2, ⟨behind, rest⟩) := by
  obtain ⟨key, hkey⟩ := reads_writeText position field.1.toList
    (':' :: ' ' :: (writeAt level field.2 ++ rest)) (position + 1)
  obtain ⟨behind, hvalue⟩ := hread level fuel rest hfuel hrest (key + 1 + 1)
  obtain ⟨c, more, hhead, hc, -⟩ := writeAt_head hplain level
  refine ⟨_, key, _, _, behind, ?_, hkey, ?_, hvalue⟩
  · simp [writeField, writeText]
  · rw [hhead, List.cons_append, skipSpace, if_pos (by decide), skipSpace_cons hc]

/-- The last field is read with the closing bracket. -/
theorem membersAt_last (seen : Assoc Value) {field : String × Value} (hplain : field.2.Plain)
    (hread : ReadsBack field.2) {fuel : Nat} (hfuel : (writeAt level field.2).length ≤ fuel + 1)
    (outer : Nat) (rest : List Char) :
    Reads (membersAt (fuel + 2) seen)
      (writeField level field ++ (newLine outer ++ '\x7d' :: rest))
      (.table (seen.set field.1 field.2)) rest := by
  intro position
  obtain ⟨text, key, colon, begin, behind, hfield, hkey, hskip, hvalue⟩ :=
    read_writeField hplain hread hfuel (endsValue_newLine outer ('\x7d' :: rest)) position
  obtain ⟨last, hlast⟩ := skipSpace_newLine (c := '\x7d') rfl outer behind rest
  refine ⟨last + 1, ?_⟩
  rw [hfield, doubleQuote, membersAt]
  simp only [hkey, Cursor.skip, skipSpace_cons (c := ':') rfl, hskip, hvalue, hlast,
    String.ofList_toList]

/-- A field with another behind it is read up to that one. -/
theorem membersAt_next (seen : Assoc Value) {field : String × Value} (hplain : field.2.Plain)
    (hread : ReadsBack field.2) {fuel : Nat} (hfuel : (writeAt level field.2).length ≤ fuel + 1)
    (rest : List Char) (position : Nat) :
    ∃ behind, membersAt (fuel + 2) seen ⟨position, writeField level field ++ ',' :: rest⟩
      = membersAt (fuel + 1) (seen.set field.1 field.2) (skipSpace behind rest) := by
  obtain ⟨text, key, colon, begin, behind, hfield, hkey, hskip, hvalue⟩ :=
    read_writeField hplain hread hfuel (endsValue_comma rest) position
  refine ⟨behind + 1, ?_⟩
  rw [hfield, doubleQuote, membersAt]
  simp only [hkey, Cursor.skip, skipSpace_cons (c := ':') rfl, skipSpace_cons (c := ',') rfl, hskip,
    hvalue, String.ofList_toList]

theorem writeFields_cons (level : Nat) (field : String × Value) (fields : List (String × Value)) :
    writeFields level (field :: fields)
      = ',' :: (newLine level ++ (writeField level field ++ writeFields level fields)) := by
  simp [writeFields, writeField]

theorem skipSpace_writeField (level position : Nat) (field : String × Value) (text : List Char) :
    ∃ behind, skipSpace position (newLine level ++ (writeField level field ++ text))
      = ⟨behind, writeField level field ++ text⟩ :=
  skipSpace_newLine (c := doubleQuote) rfl level position _

/-- The fields of a table are read from one on up to the closing bracket, behind those that have
    been `seen`; since their keys are distinct, each is put last. -/
theorem reads_members (seen : List (String × Value)) {fields : List (String × Value)}
    {field : String × Value}
    (hdistinct : (Assoc.keys (seen ++ field :: fields)).Nodup)
    (hplain : ∀ entry ∈ field :: fields, entry.2.Plain)
    (hread : ∀ entry ∈ field :: fields, ReadsBack entry.2) {fuel : Nat}
    (hfuel : (writeAt level field.2).length + (writeFields level fields).length ≤ fuel + 1)
    (outer : Nat) (rest : List Char) :
    Reads (membersAt (fuel + 2) seen)
      (writeField level field ++ (writeFields level fields ++ (newLine outer ++ '\x7d' :: rest)))
      (.table (seen ++ field :: fields)) rest := by
  induction fields generalizing seen field fuel with
  | nil =>
    rw [← Assoc.set_of_nodup hdistinct]
    exact membersAt_last seen (hplain _ List.mem_cons_self) (hread _ List.mem_cons_self) (by omega)
      outer rest
  | cons next fields ih =>
    intro position
    have hlength : (writeFields level (next :: fields)).length
        = 2 + 2 * level + (writeField level next).length + (writeFields level fields).length := by
      simp [writeFields_cons, newLine]
      omega
    have hvalue : (writeAt level next.2).length ≤ (writeField level next).length := by
      simp [writeField]
      omega
    obtain ⟨fuel, rfl⟩ : ∃ fuel', fuel = fuel' + 1 := ⟨fuel - 1, by omega⟩
    have hfield : (writeAt level field.2).length ≤ fuel + 1 + 1 := by omega
    have hmore : (writeAt level next.2).length + (writeFields level fields).length ≤ fuel + 1 := by
      omega
    obtain ⟨behind, hnext⟩ := membersAt_next seen (hplain _ List.mem_cons_self)
      (hread _ List.mem_cons_self) hfield (newLine level ++ (writeField level next ++
        (writeFields level fields ++ (newLine outer ++ '\x7d' :: rest)))) position
    obtain ⟨begin, hskip⟩ := skipSpace_writeField level behind next
      (writeFields level fields ++ (newLine outer ++ '\x7d' :: rest))
    -- The key has not been seen, so the field is put last, and the others are read behind it.
    have happend : seen ++ field :: next :: fields = (seen ++ [field]) ++ next :: fields := by simp
    rw [happend] at hdistinct
    obtain ⟨last, hmembers⟩ := ih _ hdistinct
      (fun entry h => hplain entry (List.mem_cons_of_mem _ h))
      (fun entry h => hread entry (List.mem_cons_of_mem _ h)) hmore begin
    refine ⟨last, ?_⟩
    simp only [writeFields_cons, List.cons_append, List.append_assoc]
    rw [hnext, Assoc.set_of_nodup (happend ▸ hdistinct), hskip, hmembers, happend]

/-! The empty list and the empty table stand on one line; the others are opened, read part by part
and closed. -/

theorem writeAt_list (level : Nat) (item : Value) (items : List Value) :
    writeAt level (.list (item :: items)) = '[' :: (newLine (level + 1) ++
      (writeAt (level + 1) item ++
        (writeItems (level + 1) items ++ (newLine level ++ [']'])))) := by
  simp [writeAt]

theorem writeAt_table (level : Nat) (field : String × Value) (fields : List (String × Value)) :
    writeAt level (.table (field :: fields)) = '\x7b' :: (newLine (level + 1) ++
      (writeField (level + 1) field ++
        (writeFields (level + 1) fields ++ (newLine level ++ ['\x7d'])))) := by
  simp [writeAt, writeField]

section Opening

variable {position begin : Nat} {c : Char} {text more : List Char}
  (hskip : skipSpace (position + 1) text = ⟨begin, c :: more⟩)

include hskip

theorem valueAt_list (hc : c ≠ ']') (fuel : Nat) :
    valueAt (fuel + 1) ⟨position, '[' :: text⟩ = itemsAt fuel ⟨begin, c :: more⟩ := by
  rw [valueAt]
  simp only [hskip]
  split
  · next h => exact absurd (List.cons.inj h).1 hc
  · rfl

theorem valueAt_table (hc : c ≠ '\x7d') (fuel : Nat) :
    valueAt (fuel + 1) ⟨position, '\x7b' :: text⟩ = membersAt fuel [] ⟨begin, c :: more⟩ := by
  rw [valueAt]
  simp only [hskip]
  split
  · next h => exact absurd (List.cons.inj h).1 hc
  · rfl

end Opening

theorem readsBack_list {items : List Value} (hplain : ∀ item ∈ items, item.Plain)
    (hread : ∀ item ∈ items, ReadsBack item) : ReadsBack (.list items) := by
  intro level fuel rest hfuel _ position
  cases items with
  | nil => exact ⟨position + 1 + 1, rfl⟩
  | cons item items =>
    have hlength : (writeAt (level + 1) item).length + (writeItems (level + 1) items).length + 4
        ≤ (writeAt level (.list (item :: items))).length := by
      simp [writeAt_list, newLine]
      omega
    obtain ⟨fuel, rfl⟩ : ∃ fuel', fuel = fuel' + 2 := ⟨fuel - 2, by omega⟩
    have hmore : (writeAt (level + 1) item).length + (writeItems (level + 1) items).length
        ≤ fuel + 1 := by omega
    -- The character behind the blanks does not close the list, so there are items.
    obtain ⟨c, more, hhead, hc, hclose⟩ := writeAt_head (hplain item List.mem_cons_self) (level + 1)
    obtain ⟨begin, hskip⟩ := skipSpace_newLine hc (level + 1) (position + 1)
      (more ++ (writeItems (level + 1) items ++ (newLine level ++ ']' :: rest)))
    obtain ⟨last, hitems⟩ := reads_items (fun value h => hplain value (List.mem_cons_of_mem _ h))
      hread hmore level rest begin
    refine ⟨last, ?_⟩
    rw [hhead, List.cons_append] at hitems
    simp only [writeAt_list, hhead, List.cons_append, List.append_assoc, List.nil_append]
    rw [valueAt_list hskip hclose, hitems]

theorem readsBack_table {fields : List (String × Value)} (hdistinct : (Assoc.keys fields).Nodup)
    (hplain : ∀ field ∈ fields, field.2.Plain) (hread : ∀ field ∈ fields, ReadsBack field.2) :
    ReadsBack (.table fields) := by
  intro level fuel rest hfuel _ position
  cases fields with
  | nil => exact ⟨position + 1 + 1, rfl⟩
  | cons field fields =>
    have hlength : (writeAt (level + 1) field.2).length + (writeFields (level + 1) fields).length
        + 4 ≤ (writeAt level (.table (field :: fields))).length := by
      simp [writeAt_table, writeField, newLine]
      omega
    obtain ⟨fuel, rfl⟩ : ∃ fuel', fuel = fuel' + 2 := ⟨fuel - 2, by omega⟩
    have hmore : (writeAt (level + 1) field.2).length + (writeFields (level + 1) fields).length
        ≤ fuel + 1 := by omega
    obtain ⟨begin, hskip⟩ := skipSpace_writeField (level + 1) (position + 1) field
      (writeFields (level + 1) fields ++ (newLine level ++ '\x7d' :: rest))
    obtain ⟨last, hmembers⟩ := reads_members [] hdistinct hplain hread hmore level rest begin
    refine ⟨last, ?_⟩
    simp only [writeAt_table, List.cons_append, List.append_assoc, List.nil_append]
    exact (valueAt_table hskip (by decide) _).trans hmembers

end Nested

/-- **A plain value is read as it was written.** -/
theorem readsBack {value : Value} (h : value.Plain) : ReadsBack value := by
  induction h with
  | null => exact readsBack_null
  | bool b => exact readsBack_bool b
  | int hshort => exact readsBack_int hshort
  | text s => exact readsBack_text s
  | list hplain ih => exact readsBack_list hplain ih
  | table hdistinct hplain ih => exact readsBack_table hdistinct hplain ih

/-! ## Documents -/

/-- A character of a written document: a line end or printable ASCII. -/
def isWritten (c : Char) : Bool :=
  c == '\n' || (decide (0x20 ≤ c.toNat) && decide (c.toNat < 0x7f))

theorem isWritten_hexDigits (width n : Nat) : (hexDigits width n).all isWritten = true := by
  have hdigit : ∀ m < 16, isWritten (hexDigit m) = true := by decide
  induction width generalizing n with
  | zero => rfl
  | succ width ih =>
    rw [hexDigits, List.all_append, ih, Bool.true_and, List.all_cons,
      hdigit _ (Nat.mod_lt _ (by decide))]
    rfl

theorem isWritten_writeUnit (unit : Nat) : (writeUnit unit).all isWritten = true :=
  isWritten_hexDigits 4 unit

theorem isWritten_writeChar (c : Char) : (writeChar c).all isWritten = true := by
  rw [writeChar]
  split_ifs with hquote hfeed hreturn htab hback hform hprintable hunit
  · rcases hquote with rfl | rfl <;> rfl
  · rfl
  · rfl
  · rfl
  · rfl
  · rfl
  · simp [isWritten, hprintable]
  · exact isWritten_writeUnit _
  · rw [List.all_append, isWritten_writeUnit, isWritten_writeUnit]
    rfl

theorem isWritten_writeText (s : String) : (writeText s).all isWritten = true := by
  simp only [writeText, List.all_cons, List.all_append, List.all_flatMap, isWritten_writeChar]
  simp [isWritten, doubleQuote]

theorem isWritten_newLine (level : Nat) : (newLine level).all isWritten = true := by
  simp [newLine, isWritten]

theorem isWritten_writeItems {level : Nat} {items : List Value}
    (h : ∀ item ∈ items, (writeAt level item).all isWritten = true) :
    (writeItems level items).all isWritten = true := by
  induction items with
  | nil => rfl
  | cons item items ih =>
    rw [List.forall_mem_cons] at h
    rw [writeItems, List.all_append, List.all_append, List.all_cons, isWritten_newLine, h.1, ih h.2]
    rfl

theorem isWritten_writeField {level : Nat} {field : String × Value}
    (h : (writeAt level field.2).all isWritten = true) :
    (writeField level field).all isWritten = true := by
  rw [writeField, List.all_append, List.all_append, isWritten_writeText, h]
  rfl

theorem isWritten_writeFields {level : Nat} {fields : List (String × Value)}
    (h : ∀ field ∈ fields, (writeAt level field.2).all isWritten = true) :
    (writeFields level fields).all isWritten = true := by
  induction fields with
  | nil => rfl
  | cons field fields ih =>
    rw [List.forall_mem_cons] at h
    rw [writeFields_cons, List.all_cons, List.all_append, List.all_append, isWritten_newLine,
      isWritten_writeField h.1, ih h.2]
    rfl

/-- Documents are plain ASCII. -/
theorem isWritten_writeAt {value : Value} (h : value.Plain) (level : Nat) :
    (writeAt level value).all isWritten = true := by
  induction h generalizing level with
  | null => rfl
  | bool b => cases b <;> rfl
  | @int n _ =>
    have hdigits : (Nat.toDigits 10 n.natAbs).all isWritten = true := by
      refine List.all_eq_true.2 fun c hc => ?_
      have hdigit := isDigit_of_mem_toDigits hc
      simp only [isDigit, Bool.and_eq_true, decide_eq_true_eq] at hdigit
      simp only [isWritten, Bool.or_eq_true, Bool.and_eq_true, decide_eq_true_eq]
      exact .inr ⟨by omega, by omega⟩
    rw [writeAt_int, List.all_append, hdigits]
    cases decide (n < 0) <;> rfl
  | text s => exact isWritten_writeText s
  | @list items _ ih =>
    cases items with
    | nil => rfl
    | cons item items =>
      rw [List.forall_mem_cons] at ih
      simp only [writeAt_list, List.all_cons, List.all_append, isWritten_newLine, ih.1 (level + 1),
        isWritten_writeItems fun item h => ih.2 item h (level + 1)]
      rfl
  | @table fields _ _ ih =>
    cases fields with
    | nil => rfl
    | cons field fields =>
      rw [List.forall_mem_cons] at ih
      simp only [writeAt_table, List.all_cons, List.all_append, isWritten_newLine,
        isWritten_writeField (ih.1 (level + 1)),
        isWritten_writeFields fun field h => ih.2 field h (level + 1)]
      rfl

theorem isWritten_of_mem_writeAt {value : Value} (h : value.Plain) {level : Nat} {c : Char}
    (hc : c ∈ writeAt level value) : isWritten c = true :=
  List.all_eq_true.1 (isWritten_writeAt h level) c hc

/-- **A document is read as it was written.** -/
theorem read_write {value : Value} (h : value.Plain) : read (write value ++ "\n") = .ok value := by
  have hdocument : (write value ++ "\n").toList = writeAt 0 value ++ ['\n'] := by
    simp [write]
  obtain ⟨behind, hread⟩ := readsBack h 0 (2 * (writeAt 0 value ++ ['\n']).length + 1) ['\n']
    (by simp; omega) ⟨'\n', [], rfl, .inl rfl⟩ 0
  obtain ⟨c, more, hhead, hc, -⟩ := writeAt_head h 0
  have hmark : c ≠ '\ufeff' := by
    rintro rfl
    exact absurd (isWritten_of_mem_writeAt h (hhead ▸ List.mem_cons_self)) (by decide)
  have hskip : skipSpace 0 (writeAt 0 value ++ ['\n']) = ⟨0, writeAt 0 value ++ ['\n']⟩ := by
    rw [hhead, List.cons_append, skipSpace_cons hc]
  rw [read, hdocument]
  simp only [hskip, hread]
  -- No byte order mark stands in front, and behind the value there is the line end alone.
  split
  · next hfront =>
    rw [hhead, List.cons_append] at hfront
    exact absurd (List.cons.inj hfront).1 hmark
  · rfl

end Json

end ProjectReview
