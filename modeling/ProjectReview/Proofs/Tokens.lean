import Mathlib.Data.List.Infix
import ProjectReview.Module.Outline
import ProjectReview.Proofs.Encoding

set_option autoImplicit false

/-! # Where tokens stand

The tokens of a module carry lines and byte columns. Here they are tied to the text: a `Spot` is the
line and the byte that a text leads to, a token `Spans` a word of the text between two spots, and
tokens are `Laid` in a text if their words stand in it one behind the other.

Scanning lays its tokens in the text (`laid_scan`): the state is always that behind the text that
has been read, with the word of the token that is not complete yet at its end (`State.Behind`), and
one character carries this on (`takes_advance`). Tokens without marks then stand between the start
of the first and the stop of the last of them (`Laid.trim`). -/

namespace ProjectReview

/-! ## Spots -/

/-- A line, counted from one, and a byte of it, counted from zero. -/
structure Spot where
  line : Nat
  byte : Nat
deriving DecidableEq, Repr

namespace Spot

/-- The spot behind a character that stands at a spot. -/
def next (spot : Spot) (c : Char) : Spot :=
  if c = '\n' then ⟨spot.line + 1, 0⟩ else ⟨spot.line, spot.byte + (encodeChar c).length⟩

/-- On an earlier line, or further left on the same line. -/
def Before (a b : Spot) : Prop :=
  a.line < b.line ∨ a.line = b.line ∧ a.byte < b.byte

theorem Before.trans {a b c : Spot} (hab : a.Before b) (hbc : b.Before c) : a.Before c := by
  unfold Before at *
  omega

theorem Before.irrefl (a : Spot) : ¬ a.Before a := by
  unfold Before
  omega

end Spot

theorem length_encodeChar_pos (c : Char) : 0 < (encodeChar c).length := by
  obtain ⟨first, more, hencode, -⟩ := decodeFront_encodeChar 0 c []
  simp [hencode]

theorem Spot.before_next (spot : Spot) (c : Char) : spot.Before (spot.next c) := by
  have hlength := length_encodeChar_pos c
  rw [next]
  split
  · exact .inl (Nat.lt_succ_self _)
  · exact .inr ⟨rfl, by dsimp only; omega⟩

/-- The spot that a text leads to. -/
def spotBehind (text : List Char) : Spot :=
  text.foldl Spot.next ⟨1, 0⟩

theorem spotBehind_append (text more : List Char) :
    spotBehind (text ++ more) = more.foldl Spot.next (spotBehind text) :=
  List.foldl_append

theorem spotBehind_concat (text : List Char) (c : Char) :
    spotBehind (text ++ [c]) = (spotBehind text).next c :=
  spotBehind_append text [c]

theorem Spot.before_foldl {more : List Char} (h : more ≠ []) (spot : Spot) :
    spot.Before (more.foldl Spot.next spot) := by
  induction more generalizing spot with
  | nil => exact absurd rfl h
  | cons c rest ih =>
    rw [List.foldl_cons]
    rcases rest.eq_nil_or_concat with rfl | hrest
    · exact spot.before_next c
    · exact (spot.before_next c).trans (ih (by rintro rfl; simp at hrest) _)

/-- **A text leads to a spot only once.** -/
theorem eq_nil_of_spotBehind_eq {text more : List Char}
    (h : spotBehind (text ++ more) = spotBehind text) : more = [] := by
  by_contra hmore
  have hbefore := Spot.before_foldl hmore (spotBehind text)
  rw [← spotBehind_append, h] at hbefore
  exact Spot.Before.irrefl _ hbefore

/-- Two starts of a text that lead to one spot are the same. -/
theorem eq_of_spotBehind_eq {a b restA restB : List Char} (h : a ++ restA = b ++ restB)
    (hspot : spotBehind a = spotBehind b) : a = b := by
  rcases List.append_eq_append_iff.1 h with ⟨more, rfl, -⟩ | ⟨more, rfl, -⟩
  · rw [eq_nil_of_spotBehind_eq hspot.symm, List.append_nil]
  · rw [eq_nil_of_spotBehind_eq hspot, List.append_nil]

/-! ## Tokens in a text -/

/-- The kind stands for no characters: an end of a line or of the file. -/
def TokenKind.isMark : TokenKind → Bool
  | .lineEnd | .fileEnd => true
  | _ => false

/-- The word may stand for a token of the kind. -/
def TokenKind.Spells (word : List Char) : TokenKind → Prop
  | .name spelling => word = spelling.toList
  | .symbol c => word = [c]
  | .addAssign => word = ['+', '=']
  | _ => True

namespace Token

/-- The spot of the token's first character. -/
def startSpot (token : Token) : Spot :=
  ⟨token.line, token.start⟩

/-- The spot behind the token's last character. -/
def stopSpot (token : Token) : Spot :=
  ⟨token.line, token.stop⟩

/-- The token stands for a word of the text, behind some characters. -/
structure Spans (token : Token) (before word : List Char) : Prop where
  nonempty : word ≠ []
  plain : '\n' ∉ word
  start : spotBehind before = token.startSpot
  stop : spotBehind (before ++ word) = token.stopSpot
  spelled : token.kind.Spells word

end Token

/-- The tokens stand in a text that follows some characters, one behind the other and with any gaps
    between them; marks stand for nothing there. -/
inductive Laid : List Char → List Char → List Token → Prop
  | nil {before : List Char} : Laid before [] []
  | gap {before text : List Char} {tokens : List Token} (c : Char)
      (rest : Laid (before ++ [c]) text tokens) : Laid before (c :: text) tokens
  | mark {before text : List Char} {token : Token} {tokens : List Token}
      (mark : token.kind.isMark = true) (rest : Laid before text tokens) :
      Laid before text (token :: tokens)
  | word {before word text : List Char} {token : Token} {tokens : List Token}
      (spans : token.Spans before word) (rest : Laid (before ++ word) text tokens) :
      Laid before (word ++ text) (token :: tokens)

namespace Laid

variable {before text more : List Char} {token : Token} {tokens others : List Token}

theorem append (h : Laid before text tokens) (hmore : Laid (before ++ text) more others) :
    Laid before (text ++ more) (tokens ++ others) := by
  induction h with
  | nil => simpa using hmore
  | gap c _ ih => exact .gap c (ih (by simpa using hmore))
  | mark hmark _ ih => exact .mark hmark (ih hmore)
  | word spans _ ih =>
    rw [List.append_assoc]
    exact .word spans (ih (by simpa using hmore))

theorem single (h : token.Spans before text) : Laid before text [token] := by
  simpa using Laid.word h .nil

/-- The first of some tokens stands behind a gap, if it is no mark, and the others follow it. -/
theorem cons_inv (h : Laid before text (token :: tokens)) (hword : token.kind.isMark = false) :
    ∃ gap word rest, text = gap ++ (word ++ rest) ∧ Laid before gap [] ∧
      token.Spans (before ++ gap) word ∧ Laid (before ++ (gap ++ word)) rest tokens := by
  generalize hall : token :: tokens = all at h
  induction h with
  | nil => cases hall
  | gap c _ ih =>
    obtain ⟨gap, word, rest, rfl, hgap, hspans, hrest⟩ := ih hall
    exact ⟨c :: gap, word, rest, rfl, .gap c hgap, by simpa using hspans, by simpa using hrest⟩
  | mark hmark _ _ =>
    obtain ⟨rfl, rfl⟩ := List.cons.inj hall
    rw [hword] at hmark
    cases hmark
  | word hspans hrest _ =>
    obtain ⟨rfl, rfl⟩ := List.cons.inj hall
    exact ⟨[], _, _, rfl, .nil, by simpa using hspans, by simpa using hrest⟩

/-- Tokens in two groups stand in two parts of the text. -/
theorem split (h : Laid before text (tokens ++ others)) :
    ∃ first second, text = first ++ second ∧ Laid before first tokens ∧
      Laid (before ++ first) second others := by
  generalize hall : tokens ++ others = all at h
  induction h generalizing tokens with
  | nil =>
    obtain ⟨rfl, rfl⟩ := List.append_eq_nil_iff.1 hall
    exact ⟨[], [], rfl, .nil, .nil⟩
  | @gap before text all c hrest ih =>
    cases tokens with
    | nil =>
      obtain rfl : others = all := hall
      exact ⟨[], c :: text, rfl, .nil, by rw [List.append_nil]; exact .gap c hrest⟩
    | cons token tokens =>
      obtain ⟨first, second, rfl, hfirst, hsecond⟩ := ih hall
      exact ⟨c :: first, second, rfl, .gap c hfirst, by simpa using hsecond⟩
  | @mark before text token' all hmark hlaid ih =>
    cases tokens with
    | nil =>
      obtain rfl : others = token' :: all := hall
      exact ⟨[], text, rfl, .nil, by rw [List.append_nil]; exact .mark hmark hlaid⟩
    | cons token tokens =>
      obtain ⟨rfl, hrest⟩ := List.cons.inj hall
      obtain ⟨first, second, rfl, hfirst, hsecond⟩ := ih hrest
      exact ⟨first, second, rfl, .mark hmark hfirst, hsecond⟩
  | @word before word text token' all hspans hlaid ih =>
    cases tokens with
    | nil =>
      obtain rfl : others = token' :: all := hall
      exact ⟨[], word ++ text, rfl, .nil, by rw [List.append_nil]; exact .word hspans hlaid⟩
    | cons token tokens =>
      obtain ⟨rfl, hrest⟩ := List.cons.inj hall
      obtain ⟨first, second, rfl, hfirst, hsecond⟩ := ih hrest
      exact ⟨word ++ first, second, by simp, .word hspans hfirst, by simpa using hsecond⟩

/-- Every token that is no mark stands somewhere in the text. -/
theorem exists_spans (h : Laid before text tokens) (hmem : token ∈ tokens)
    (hword : token.kind.isMark = false) :
    ∃ front word rest, text = front ++ (word ++ rest) ∧ token.Spans (before ++ front) word := by
  obtain ⟨ahead, behind, rfl⟩ := List.append_of_mem hmem
  obtain ⟨first, second, rfl, -, hsecond⟩ := h.split
  obtain ⟨gap, word, rest, rfl, -, hspans, -⟩ := hsecond.cons_inv hword
  exact ⟨first ++ gap, word, rest, by simp, by simpa using hspans⟩

/-- Tokens without marks stand in the text between the start of the first and the stop of the last,
    with gaps around it. -/
theorem trim {last : Token} (h : Laid before text (token :: tokens))
    (hlast : (token :: tokens).getLast? = some last)
    (hwords : ∀ token' ∈ token :: tokens, token'.kind.isMark = false) :
    ∃ gap core rest, text = gap ++ (core ++ rest) ∧ core ≠ [] ∧
      Laid before gap [] ∧ Laid (before ++ gap) core (token :: tokens) ∧
      Laid (before ++ gap ++ core) rest [] ∧ spotBehind (before ++ gap) = token.startSpot ∧
      spotBehind (before ++ gap ++ core) = last.stopSpot := by
  obtain ⟨gap, word, rest, rfl, hgap, hfirst, hrest⟩ := h.cons_inv (hwords token List.mem_cons_self)
  have hfrom : Laid (before ++ gap) (word ++ rest) (token :: tokens) :=
    .word hfirst (by rwa [List.append_assoc])
  obtain ⟨others, hothers⟩ := List.getLast?_eq_some_iff.1 hlast
  rw [hothers] at hfrom hwords
  obtain ⟨front, back, hsplit, hfront, hback⟩ := hfrom.split
  obtain ⟨gap', word', rest', rfl, hgap', hstop, hrest'⟩ := hback.cons_inv (hwords last (by simp))
  have hcore : Laid (before ++ gap) (front ++ (gap' ++ word')) (others ++ [last]) :=
    hfront.append (hgap'.append (.single hstop))
  refine ⟨gap, front ++ (gap' ++ word'), rest', ?_, ?_, hgap, hothers ▸ hcore, ?_, hfirst.start, ?_⟩
  · rw [hsplit]
    simp
  · simp [hstop.nonempty]
  · simpa using hrest'
  · simpa using hstop.stop

end Laid

/-! ## Scanning -/

namespace Token

/-- A word that has been read up to the current character and starts at a column. -/
structure Started (line start : Nat) (before word : List Char) : Prop where
  nonempty : word ≠ []
  plain : '\n' ∉ word
  spot : spotBehind before = ⟨line, start⟩

/-- What has been read of the token that the next character may continue. -/
def Pending.Holds (line : Nat) (before word : List Char) : Pending → Prop
  | .nothing | .comment => word = []
  | .name start reversed => Started line start before word ∧ word = reversed.reverse
  | .number start | .text start => Started line start before word
  | .plus start => Started line start before word ∧ word = ['+']

/-- The state is that behind some text, which ends in the word of a token that is not complete. -/
structure State.Behind (s : State) (before word : List Char) : Prop where
  spot : spotBehind (before ++ word) = ⟨s.line, s.column⟩
  holds : s.pending.Holds s.line before word

/-- Reading on takes some text, from the start of a token on: the tokens it completes stand in it,
    and the state is that behind it. -/
def State.Takes (before text : List Char) (step : List Token × State) : Prop :=
  ∃ done word, text = done ++ word ∧ Laid before done step.1 ∧ step.2.Behind (before ++ done) word

theorem next_of_ne {line column : Nat} {c : Char} (h : c ≠ '\n') :
    Spot.next ⟨line, column⟩ c = ⟨line, column + (encodeChar c).length⟩ :=
  if_neg h

section Step

variable {s : State} {before word : List Char} {c : Char}

theorem laid_gap (before : List Char) (c : Char) : Laid before [c] [] :=
  .gap c .nil

/-- A character that starts a token is the word of it so far. -/
theorem started_singleton (h : spotBehind before = ⟨s.line, s.column⟩) (hc : c ≠ '\n') :
    Started s.line s.column before [c] :=
  ⟨by simp, by simpa using fun hsame => hc hsame.symm, h⟩

/-- Another character of a token's line goes to its word. -/
theorem Started.concat {line start : Nat} (h : Started line start before word) (hc : c ≠ '\n') :
    Started line start before (word ++ [c]) where
  nonempty := by simp
  plain := by
    rw [List.mem_append, not_or]
    exact ⟨h.plain, by simpa using fun hsame => hc hsame.symm⟩
  spot := h.spot

theorem Started.spans {line start stop : Nat} {kind : TokenKind}
    (h : Started line start before word) (hstop : spotBehind (before ++ word) = ⟨line, stop⟩)
    (hspelled : kind.Spells word) : Spans ⟨kind, line, start, stop⟩ before word :=
  ⟨h.nonempty, h.plain, h.spot, hstop, hspelled⟩

/-- Text that tokens have been completed in, and none is begun. -/
theorem State.Takes.complete {text : List Char} {tokens : List Token} {next : State}
    (hlaid : Laid before text tokens)
    (hspot : spotBehind (before ++ text) = ⟨next.line, next.column⟩)
    (hholds : next.pending.Holds next.line (before ++ text) []) :
    State.Takes before text (tokens, next) :=
  ⟨text, [], by simp, hlaid, by simpa using hspot, hholds⟩

/-- Text that is the word of a token so far. -/
theorem State.Takes.begun {text : List Char} {next : State}
    (hspot : spotBehind (before ++ text) = ⟨next.line, next.column⟩)
    (hholds : next.pending.Holds next.line before text) : State.Takes before text ([], next) :=
  ⟨[], text, rfl, .nil, by simpa using hspot, by simpa using hholds⟩

/-- A character outside of any token. -/
theorem takes_fresh (h : spotBehind before = ⟨s.line, s.column⟩) (c : Char) :
    State.Takes before [c] (s.fresh c) := by
  rw [State.fresh]
  dsimp only
  by_cases hbreak : c = '\n'
  · subst hbreak
    have hspot : spotBehind (before ++ ['\n']) = ⟨s.line + 1, 0⟩ := by
      rw [spotBehind_concat, h]
      rfl
    rw [if_pos rfl]
    refine .complete ?_ hspot rfl
    split
    · exact .mark rfl (laid_gap before _)
    · exact laid_gap before _
  · have hspot : spotBehind (before ++ [c]) = ⟨s.line, s.column + (encodeChar c).length⟩ := by
      rw [spotBehind_concat, h, next_of_ne hbreak]
    have hstarted := started_singleton h hbreak
    rw [if_neg hbreak]
    -- A blank and the start of a comment stand between tokens, the next four kinds of characters
    -- start a token, and any other is one.
    split
    · exact .complete (laid_gap before c) hspot rfl
    split
    · exact .complete (laid_gap before c) hspot rfl
    split
    · exact .begun hspot hstarted
    split
    · next hplus => exact .begun hspot ⟨hstarted, by rw [hplus]⟩
    split
    · exact .begun hspot hstarted
    split
    · exact .begun hspot ⟨hstarted, rfl⟩
    split
    · exact .complete (.single (hstarted.spans hspot rfl)) hspot rfl
    · exact .complete (.single (hstarted.spans hspot trivial)) hspot rfl

/-- The token that ends before a character stands for the word that has been read. -/
theorem State.Behind.laid_closed (h : s.Behind before word) : Laid before word s.closed := by
  have hspot := h.spot
  have hholds := h.holds
  rw [State.closed]
  cases hpending : s.pending with
  | nothing =>
    rw [hpending] at hholds
    obtain rfl : word = [] := hholds
    exact .nil
  | comment =>
    rw [hpending] at hholds
    obtain rfl : word = [] := hholds
    exact .nil
  | name start reversed =>
    rw [hpending] at hholds
    have hspelled : (TokenKind.name (String.ofList reversed.reverse)).Spells word :=
      hholds.2.trans String.toList_ofList.symm
    exact .single (hholds.1.spans hspot hspelled)
  | number start =>
    rw [hpending] at hholds
    exact .single (hholds.spans hspot trivial)
  | text start =>
    rw [hpending] at hholds
    exact .single (hholds.spans hspot trivial)
  | plus start =>
    rw [hpending] at hholds
    exact .single (hholds.1.spans hspot hholds.2)

/-- A character that is not part of the token before it. -/
theorem takes_ended (h : s.Behind before word) (c : Char) :
    State.Takes before (word ++ [c]) (s.closed ++ (s.fresh c).1, (s.fresh c).2) := by
  obtain ⟨done, rest, htext, hlaid, hbehind⟩ := takes_fresh h.spot c
  exact ⟨word ++ done, rest, by rw [htext, List.append_assoc], h.laid_closed.append hlaid,
    by rwa [← List.append_assoc]⟩

/-- **One character carries the scan on.** -/
theorem takes_advance (h : s.Behind before word) (c : Char) :
    State.Takes before (word ++ [c]) (s.advance c) := by
  have hspot (hc : c ≠ '\n') : spotBehind (before ++ (word ++ [c]))
      = ⟨s.line, s.column + (encodeChar c).length⟩ := by
    rw [← List.append_assoc, spotBehind_concat, h.spot, next_of_ne hc]
  have hholds := h.holds
  rw [State.advance]
  cases hpending : s.pending with
  | nothing =>
    rw [hpending] at hholds
    obtain rfl : word = [] := hholds
    exact takes_fresh (by simpa using h.spot) c
  | comment =>
    rw [hpending] at hholds
    obtain rfl : word = [] := hholds
    dsimp only
    split
    · exact takes_fresh (by simpa using h.spot) c
    · next hc => exact .complete (laid_gap before c) (hspot hc) rfl
  | text start =>
    rw [hpending] at hholds
    dsimp only
    split
    · next hquote =>
      have hc : c ≠ '\n' := by rw [hquote]; decide
      exact .complete (.single ((hholds.concat hc).spans (hspot hc) trivial)) (hspot hc) rfl
    split
    · exact takes_ended h c
    · next hc => exact .begun (hspot hc) (hholds.concat hc)
  | plus start =>
    rw [hpending] at hholds
    dsimp only
    split
    · next hequals =>
      have hc : c ≠ '\n' := by rw [hequals]; decide
      have hspelled : TokenKind.addAssign.Spells (word ++ [c]) := by rw [hholds.2, hequals]; rfl
      exact .complete (.single ((hholds.1.concat hc).spans (hspot hc) hspelled)) (hspot hc) rfl
    · exact takes_ended h c
  | number start =>
    rw [hpending] at hholds
    dsimp only
    split
    · next hdigit =>
      have hc : c ≠ '\n' := by rintro rfl; exact absurd hdigit (by decide)
      exact .begun (hspot hc) (hholds.concat hc)
    · exact takes_ended h c
  | name start reversed =>
    rw [hpending] at hholds
    dsimp only
    split
    · next hname =>
      have hc : c ≠ '\n' := by rintro rfl; exact absurd hname (by decide)
      exact .begun (hspot hc) ⟨hholds.1.concat hc, by rw [hholds.2, List.reverse_cons]⟩
    · exact takes_ended h c

end Step

/-- **The tokens from a state on stand in the text that is left, with the word of the state in front
    of it.** -/
theorem laid_scanFrom {s : State} {before word : List Char} (h : s.Behind before word)
    (rest : List Char) : Laid before (word ++ rest) (scanFrom s rest) := by
  induction rest generalizing s before word with
  | nil => exact h.laid_closed.append (.mark rfl (.mark rfl .nil))
  | cons c rest ih =>
    obtain ⟨done, next, htext, hlaid, hbehind⟩ := takes_advance h c
    have hrest := hlaid.append (ih hbehind)
    have hall : word ++ c :: rest = done ++ (next ++ rest) := by
      rw [← List.append_assoc, ← htext, List.append_assoc, List.singleton_append]
    rwa [hall]

/-- **The tokens of a module stand in its text**, if that has line feeds only. -/
theorem laid_scan {source : String} (h : '\r' ∉ source.toList) :
    Laid [] source.toList (scan source) := by
  have hstart : State.Behind {} [] [] := ⟨rfl, rfl⟩
  rw [scan, unifyLineEnds_eq_self h]
  exact laid_scanFrom hstart source.toList

end Token

end ProjectReview
