import ProjectReview.Catalog.UnusedBinding
import ProjectReview.Proofs.Addresses
import ProjectReview.Proofs.Batches
import ProjectReview.Proofs.Tokens

set_option autoImplicit false

/-! # Removing a stretch of lines

A `Layout` is a stretch of a text with the lines and parts of lines around it. The range that is
removed with a statement is given in rows and columns, from the statement's own spots, whose columns
count bytes, and from the lengths of lines, which count characters. Here it is turned into the text
that is taken away (`Layout.removed`) and the text that stays, with a case for each of the three
ranges: a statement below the first line (`cuts_below`), one on the first line with lines below it
(`cuts_heads`), and one that goes from the first line to the last (`cuts_alone`).

What is taken away is the statement, what stands in front of it on its line, the line break in front
of that, and as much of what stands behind it as the bytes of its last line exceed the characters;
from the first line on, a statement with lines below it goes with all that its lines hold. Taking
this away always succeeds (`applyFixes_removalRange`). -/

namespace ProjectReview

/-! ## Rows of a text -/

theorem cutAt_joinWith {c : Char} {lines : List (List Char)} (hlines : lines ≠ [])
    (h : ∀ line ∈ lines, c ∉ line) : cutAt c (joinWith c lines) = lines := by
  induction lines with
  | nil => exact absurd rfl hlines
  | cons line rest ih =>
    rw [List.forall_mem_cons] at h
    cases rest with
    | nil => exact cutAt_of_not_mem h.1
    | cons next more =>
      rw [joinWith_cons_of_ne_nil _ _ _ (by simp), cutAt_append_cons, cutAt_of_not_mem h.1,
        ih (by simp) h.2]
      rfl

/-- The lines of a text that end in it. -/
def closedLines (text : List Char) : List (List Char) :=
  (cutAt '\n' text).dropLast

/-- The line that a text leads into. -/
def openLine (text : List Char) : List Char :=
  (cutAt '\n' text).getLast (cutAt_ne_nil '\n' text)

theorem closedLines_append_openLine (text : List Char) :
    closedLines text ++ [openLine text] = cutAt '\n' text :=
  List.dropLast_append_getLast _

theorem plain_closedLines (text : List Char) : ∀ line ∈ closedLines text, '\n' ∉ line :=
  fun _ hline => not_mem_of_mem_cutAt (List.mem_of_mem_dropLast hline)

theorem plain_openLine (text : List Char) : '\n' ∉ openLine text :=
  not_mem_of_mem_cutAt (List.getLast_mem _)

/-- A text is the lines that end in it, each with its line feed, and the line that it leads into. -/
theorem eq_closedLines_append (text : List Char) :
    (closedLines text).flatMap (· ++ ['\n']) ++ openLine text = text := by
  have hjoin := joinWith_append_right '\n' (closedLines text) (List.cons_ne_nil (openLine text) [])
  rw [closedLines_append_openLine, joinWith_cutAt] at hjoin
  exact hjoin.symm

theorem utf8Length_cons (c : Char) (cs : List Char) :
    utf8Length (c :: cs) = (encodeChar c).length + utf8Length cs := by
  simp [utf8Length]

theorem length_le_utf8Length (cs : List Char) : cs.length ≤ utf8Length cs := by
  induction cs with
  | nil => exact Nat.zero_le _
  | cons c rest ih =>
    have hc := length_encodeChar_pos c
    rw [utf8Length_cons, List.length_cons]
    omega

theorem foldl_next_of_plain {cs : List Char} (h : '\n' ∉ cs) (spot : Spot) :
    cs.foldl Spot.next spot = ⟨spot.line, spot.byte + utf8Length cs⟩ := by
  induction cs generalizing spot with
  | nil => rfl
  | cons c rest ih =>
    rw [List.mem_cons, not_or] at h
    rw [List.foldl_cons, ih h.2, Spot.next, if_neg fun hsame => h.1 hsame.symm, utf8Length_cons,
      Nat.add_assoc]

/-- The spot behind whole lines is the start of the next one. -/
theorem spotBehind_lines {lines : List (List Char)} (h : ∀ line ∈ lines, '\n' ∉ line) :
    spotBehind (lines.flatMap (· ++ ['\n'])) = ⟨lines.length + 1, 0⟩ := by
  induction lines using List.reverseRecOn with
  | nil => rfl
  | append_singleton lines line ih =>
    rw [List.forall_mem_append] at h
    rw [List.flatMap_append, List.flatMap_singleton, ← List.append_assoc, spotBehind_concat,
      spotBehind_append, ih h.1, foldl_next_of_plain (h.2 line List.mem_cons_self),
      List.length_append]
    rfl

theorem spotBehind_eq {lines : List (List Char)} {line : List Char}
    (hlines : ∀ line ∈ lines, '\n' ∉ line) (hline : '\n' ∉ line) :
    spotBehind (lines.flatMap (· ++ ['\n']) ++ line) = ⟨lines.length + 1, utf8Length line⟩ := by
  rw [spotBehind_append, spotBehind_lines hlines, foldl_next_of_plain hline, Nat.zero_add]

/-- The position of a spot: rows and columns count from one. -/
def Spot.position (spot : Spot) : Position :=
  ⟨spot.line, spot.byte + 1⟩

/-! ## Layouts -/

/-- A stretch of a text with what is around it: the lines above, what stands in front of it on its
    first line, the stretch itself, what stands behind it on its last line, and the lines below. -/
structure Layout where
  above : List (List Char)
  inFront : List Char
  text : List Char
  behind : List Char
  below : List (List Char)
  plain_above : ∀ line ∈ above, '\n' ∉ line
  plain_inFront : '\n' ∉ inFront
  plain_behind : '\n' ∉ behind
  plain_below : ∀ line ∈ below, '\n' ∉ line

namespace Layout

/-- The text up to the stretch. -/
def before (layout : Layout) : List Char :=
  layout.above.flatMap (· ++ ['\n']) ++ layout.inFront

/-- The text from the stretch on. -/
def after (layout : Layout) : List Char :=
  layout.behind ++ layout.below.flatMap ('\n' :: ·)

/-- The layout of a stretch between two texts. -/
def between (before text after : List Char) : Layout where
  above := closedLines before
  inFront := openLine before
  text := text
  behind := (cutAt '\n' after).head (cutAt_ne_nil '\n' after)
  below := (cutAt '\n' after).tail
  plain_above := plain_closedLines before
  plain_inFront := plain_openLine before
  plain_behind := not_mem_of_mem_cutAt (List.head_mem _)
  plain_below _ hline := not_mem_of_mem_cutAt (List.mem_of_mem_tail hline)

theorem before_between (before text after : List Char) :
    (between before text after).before = before :=
  eq_closedLines_append before

theorem after_between (before text after : List Char) :
    (between before text after).after = after := by
  have hjoin := joinWith_cutAt '\n' after
  rw [← List.cons_head_tail (cutAt_ne_nil '\n' after), joinWith_cons_eq] at hjoin
  exact hjoin

/-- The lines that end in the stretch; the first of them starts with what stands in front. -/
def upper (layout : Layout) : List (List Char) :=
  closedLines (layout.inFront ++ layout.text)

/-- The last line of the stretch, from its start up to the end of the stretch. -/
def lastLine (layout : Layout) : List Char :=
  openLine (layout.inFront ++ layout.text)

/-- The lines of the whole text. -/
def lines (layout : Layout) : List (List Char) :=
  layout.above ++ layout.upper ++ (layout.lastLine ++ layout.behind) :: layout.below

/-- By how many the bytes of the last line exceed its characters. -/
def excess (layout : Layout) : Nat :=
  utf8Length layout.lastLine - layout.lastLine.length

theorem before_append_text (layout : Layout) : layout.before ++ layout.text
    = (layout.above ++ layout.upper).flatMap (· ++ ['\n']) ++ layout.lastLine := by
  rw [before, List.flatMap_append, List.append_assoc, List.append_assoc, upper, lastLine,
    eq_closedLines_append]

theorem plain_aboveUpper (layout : Layout) :
    ∀ line ∈ layout.above ++ layout.upper, '\n' ∉ line :=
  List.forall_mem_append.2 ⟨layout.plain_above, plain_closedLines _⟩

theorem joinWith_lines (layout : Layout) :
    joinWith '\n' layout.lines = layout.before ++ (layout.text ++ layout.after) := by
  rw [lines, joinWith_append_right _ _ (by simp), joinWith_cons_eq, ← List.append_assoc,
    ← List.append_assoc, ← before_append_text, after, List.append_assoc, List.append_assoc]

theorem linesOf_eq {layout : Layout} {source : String}
    (h : source.toList = layout.before ++ (layout.text ++ layout.after)) :
    linesOf source = layout.lines := by
  rw [linesOf, h, ← joinWith_lines]
  apply cutAt_joinWith (by simp [lines])
  have hlast : '\n' ∉ layout.lastLine ++ layout.behind := by
    rw [List.mem_append, not_or]
    exact ⟨plain_openLine _, layout.plain_behind⟩
  exact List.forall_mem_append.2 ⟨layout.plain_aboveUpper,
    List.forall_mem_cons.2 ⟨hlast, layout.plain_below⟩⟩

theorem spotBehind_before (layout : Layout) :
    spotBehind layout.before = ⟨layout.above.length + 1, utf8Length layout.inFront⟩ :=
  spotBehind_eq layout.plain_above layout.plain_inFront

theorem spotBehind_text (layout : Layout) : spotBehind (layout.before ++ layout.text)
    = ⟨(layout.above ++ layout.upper).length + 1, utf8Length layout.lastLine⟩ := by
  rw [before_append_text]
  exact spotBehind_eq layout.plain_aboveUpper (plain_openLine _)

/-! ## What is removed -/

/-- The text that stays in front of what is removed. -/
def keptFront (layout : Layout) : List Char :=
  joinWith '\n' layout.above

/-- The line break in front of the stretch's line is removed if there is one. -/
def lead (layout : Layout) : List Char :=
  if layout.above = [] then [] else ['\n']

/-- The stretch is on the first line, and there are lines below it. -/
def Heads (layout : Layout) : Prop :=
  layout.above = [] ∧ layout.below ≠ []

instance (layout : Layout) : Decidable layout.Heads :=
  inferInstanceAs (Decidable (_ ∧ _))

/-- What is removed of what stands behind the stretch on its last line: all of it if the lines below
    move up to the first line, and else as many characters as the columns, which count bytes, lead
    past the end of the stretch. -/
def reached (layout : Layout) : List Char :=
  if layout.Heads then layout.behind else layout.behind.take layout.excess

/-- The line break behind the stretch's line is removed if the lines below move up to the first
    line. -/
def trail (layout : Layout) : List Char :=
  if layout.Heads then ['\n'] else []

/-- The text that stays behind what is removed. -/
def keptBack (layout : Layout) : List Char :=
  if layout.Heads then joinWith '\n' layout.below
  else layout.behind.drop layout.excess ++ layout.below.flatMap ('\n' :: ·)

/-- The text that is removed with the stretch. -/
def removed (layout : Layout) : List Char :=
  layout.lead ++ (layout.inFront ++ (layout.text ++ (layout.reached ++ layout.trail)))

theorem keptFront_append (layout : Layout) :
    layout.keptFront ++ (layout.lead ++ layout.inFront) = layout.before := by
  rw [keptFront, lead, before]
  split
  · next habove =>
    rw [habove]
    rfl
  · next habove =>
    have hright := joinWith_append_right '\n' layout.above (List.cons_ne_nil [] [])
    rw [joinWith_append_left '\n' [[]] habove] at hright
    simpa [joinWith] using congrArg (· ++ layout.inFront) hright

theorem append_keptBack (layout : Layout) :
    layout.reached ++ layout.trail ++ layout.keptBack = layout.after := by
  rw [reached, trail, keptBack, after]
  split
  · next hheads =>
    obtain ⟨line, rest, hbelow⟩ := List.exists_cons_of_ne_nil hheads.2
    rw [hbelow, joinWith_cons_eq]
    simp
  · rw [List.append_nil, ← List.append_assoc, List.take_append_drop]

/-- The text is what is kept and what is removed. -/
theorem eq_kept_append (layout : Layout) : layout.before ++ (layout.text ++ layout.after)
    = layout.keptFront ++ (layout.removed ++ layout.keptBack) := by
  rw [← keptFront_append, ← append_keptBack, removed]
  simp

/-- The range of the stretch, in bytes. -/
def range (layout : Layout) : Range :=
  ⟨(spotBehind layout.before).position, (spotBehind (layout.before ++ layout.text)).position⟩

end Layout

/-- A position on a row of a text cuts it there. -/
theorem Position.cut_at_row {p : Position} (above : List (List Char)) (line : List Char)
    (below : List (List Char)) (hrow : p.row = above.length + 1) :
    (joinWith '\n' (above ++ line :: below)).take (p.offset (above ++ line :: below))
      = above.flatMap (· ++ ['\n']) ++ line.take p.columnIndex ∧
    (joinWith '\n' (above ++ line :: below)).drop (p.offset (above ++ line :: below))
      = line.drop p.columnIndex ++ below.flatMap ('\n' :: ·) := by
  have hindex : p.rowIndex = above.length := by
    rw [rowIndex, hrow]
    omega
  have hlt : p.rowIndex < (above ++ line :: below).length := by
    rw [hindex]
    simp
  have hline : lineAt (above ++ line :: below) above.length = line := by simp [lineAt]
  have habove : textAbove (above ++ line :: below) above.length = above.flatMap (· ++ ['\n']) := by
    rw [textAbove, List.take_left]
  have hbelow : textBelow (above ++ line :: below) above.length = below.flatMap ('\n' :: ·) := by
    rw [textBelow, List.append_cons, List.drop_left' (by simp)]
  constructor
  · rw [take_offset hlt, hindex, habove, hline]
  · rw [drop_offset hlt, hindex, hbelow, hline]

/-- **A removal that takes something away succeeds.** -/
theorem applyFixes_removal {range : Range} {source : String} {front removed back : List Char}
    (haddresses : (Fix.removal range).addresses (linesOf source).length = true)
    (hsource : source.toList = front ++ (removed ++ back)) (hremoved : removed ≠ [])
    (hfront : source.toList.take (range.start.offset (linesOf source)) = front)
    (hback : source.toList.drop (range.stop.offset (linesOf source)) = back) :
    applyFixes [Fix.removal range] source = .ok (String.ofList (front ++ back)) := by
  have hspliced : spliced [Fix.removal range] source = String.ofList (front ++ back) := by
    have hrows := (Fix.rows_of_addresses haddresses).2
    have hjoin := Fix.joinWith_splice hrows.1 hrows.2
    have hlines : joinWith '\n' (linesOf source) = source.toList := joinWith_cutAt _ _
    rw [hlines] at hjoin
    have htext : (Fix.removal range).replacement.toList = [] := rfl
    show String.ofList (joinWith '\n' ((Fix.removal range).splice (linesOf source))) = _
    rw [hjoin, htext, List.append_nil]
    exact congrArg String.ofList (congrArg₂ (· ++ ·) hfront hback)
  rw [← hspliced, applyFixes_eq_iff]
  refine .applied (List.pairwise_singleton _ _) ?_ ?_
  · intro fix hfix
    rw [List.mem_singleton.1 hfix]
    exact (Fix.addresses_iff_not_outside _ _).1 haddresses
  · intro hsame
    have hlength := congrArg (fun text : String => text.toList.length) (hspliced.symm.trans hsame)
    simp only [String.toList_ofList, hsource, List.length_append] at hlength
    have hpos := List.length_pos_of_ne_nil hremoved
    omega

namespace Layout

variable {layout : Layout}

theorem row_start (layout : Layout) : layout.range.start.row = layout.above.length + 1 := by
  rw [range, spotBehind_before]
  rfl

theorem row_stop (layout : Layout) :
    layout.range.stop.row = (layout.above ++ layout.upper).length + 1 := by
  rw [range, spotBehind_text]
  rfl

theorem columnIndex_stop (layout : Layout) :
    layout.range.stop.columnIndex = layout.lastLine.length + layout.excess := by
  have hle := length_le_utf8Length layout.lastLine
  rw [range, spotBehind_text, excess]
  show ((utf8Length layout.lastLine : Int) + 1 - 1).toNat = _
  omega

theorem length_lines (layout : Layout) : layout.lines.length
    = (layout.above ++ layout.upper).length + 1 + layout.below.length := by
  rw [lines, List.length_append, List.length_cons]
  omega

/-- The column at which the stretch ends counts bytes, so it cuts the line behind the stretch. -/
theorem drop_stop (layout : Layout) :
    (joinWith '\n' layout.lines).drop (layout.range.stop.offset layout.lines)
      = layout.behind.drop layout.excess ++ layout.below.flatMap ('\n' :: ·) := by
  obtain ⟨-, hdrop⟩ := Position.cut_at_row (layout.above ++ layout.upper)
    (layout.lastLine ++ layout.behind) layout.below layout.row_stop
  rw [lines, hdrop, columnIndex_stop, List.drop_length_add_append]

/-- A statement below the first line is removed from the end of the line above it. -/
theorem removalRange_below {rows : List (List Char)} {last : List Char}
    (h : layout.above = rows ++ [last]) : removalRange layout.lines layout.range
      = ⟨⟨rows.length + 1, last.length + 1⟩, layout.range.stop⟩ := by
  have hrow := layout.row_start
  rw [h, List.length_append, List.length_singleton] at hrow
  have hindex : (layout.range.start.row - 2).toNat = rows.length := by omega
  have hprevious : layout.range.start.row - 1 = rows.length + 1 := by omega
  have hlast : (layout.lines[rows.length]?).getD [] = last := by simp [lines, h]
  rw [removalRange, if_pos (by omega), hindex, hprevious, hlast]

/-- A statement on the first line is removed with its lines, if there are lines below. -/
theorem removalRange_heads (h : layout.Heads) : removalRange layout.lines layout.range
    = ⟨⟨1, 1⟩, ⟨layout.upper.length + 2, 1⟩⟩ := by
  have hstart := layout.row_start
  have hstop := layout.row_stop
  have hlength := layout.length_lines
  have hbelow := List.length_pos_of_ne_nil h.2
  rw [h.1, List.length_nil] at hstart
  rw [h.1, List.nil_append] at hstop hlength
  rw [removalRange, if_neg (by omega), if_pos (by omega), hstop, Range.of]
  congr 2

/-- A statement that the text ends with, from its first line on, is removed up to its end. -/
theorem removalRange_alone (habove : layout.above = []) (hbelow : layout.below = []) :
    removalRange layout.lines layout.range = ⟨⟨1, 1⟩, layout.range.stop⟩ := by
  have hstart := layout.row_start
  have hstop := layout.row_stop
  have hlength := layout.length_lines
  rw [habove, List.length_nil] at hstart
  rw [habove, List.nil_append] at hstop hlength
  rw [hbelow, List.length_nil] at hlength
  rw [removalRange, if_neg (by omega), if_neg (by omega)]

theorem column_stop (layout : Layout) : 1 ≤ layout.range.stop.column := by
  rw [range, spotBehind_text]
  show (1 : Int) ≤ (utf8Length layout.lastLine : Int) + 1
  omega

/-- The range addresses the text and cuts it where the layout says. -/
structure Cuts (layout : Layout) (range : Range) : Prop where
  addresses : (Fix.removal range).addresses layout.lines.length = true
  front : (joinWith '\n' layout.lines).take (range.start.offset layout.lines) = layout.keptFront
  back : (joinWith '\n' layout.lines).drop (range.stop.offset layout.lines) = layout.keptBack

/-- From the first position of the text on, nothing is kept in front. -/
theorem take_first (habove : layout.above = []) :
    (joinWith '\n' layout.lines).take (Position.offset layout.lines ⟨1, 1⟩)
      = layout.keptFront := by
  have hne : layout.lines ≠ [] := by simp [lines]
  obtain ⟨line, rest, hlines⟩ := List.exists_cons_of_ne_nil hne
  obtain ⟨htake, -⟩ := Position.cut_at_row (p := ⟨1, 1⟩) [] line rest rfl
  rw [hlines, keptFront, habove]
  exact htake

theorem cuts_below {rows : List (List Char)} {last : List Char}
    (habove : layout.above = rows ++ [last]) :
    layout.Cuts ⟨⟨rows.length + 1, last.length + 1⟩, layout.range.stop⟩ := by
  have hheads : ¬ layout.Heads := by
    intro h
    rw [h.1] at habove
    simp at habove
  have hlines : layout.lines
      = rows ++ last :: (layout.upper ++ (layout.lastLine ++ layout.behind) :: layout.below) := by
    rw [lines, habove]
    simp
  refine ⟨?_, ?_, ?_⟩
  · have hstop := layout.row_stop
    have hcolumn := layout.column_stop
    have hlength := layout.length_lines
    rw [habove] at hlength hstop
    simp only [List.length_append, List.length_singleton] at hlength hstop
    rw [Fix.addresses_iff, Position.upTo_iff]
    simp only [Fix.removal]
    omega
  · have hindex : Position.columnIndex ⟨rows.length + 1, last.length + 1⟩ = last.length := by
      simp [Position.columnIndex]
    obtain ⟨htake, -⟩ := Position.cut_at_row (p := ⟨rows.length + 1, last.length + 1⟩) rows last
      (layout.upper ++ (layout.lastLine ++ layout.behind) :: layout.below) rfl
    rw [hlines, htake, hindex, List.take_length, keptFront, habove,
      joinWith_append_right _ _ (by simp)]
    rfl
  · rw [layout.drop_stop, keptBack, if_neg hheads]

theorem cuts_heads (hheads : layout.Heads) :
    layout.Cuts ⟨⟨1, 1⟩, ⟨layout.upper.length + 2, 1⟩⟩ := by
  obtain ⟨line, rest, hrest⟩ := List.exists_cons_of_ne_nil hheads.2
  have hlines : layout.lines
      = (layout.upper ++ [layout.lastLine ++ layout.behind]) ++ line :: rest := by
    rw [lines, hheads.1, hrest]
    simp
  refine ⟨?_, take_first hheads.1, ?_⟩
  · rw [Fix.addresses_iff, Position.upTo_iff, hlines]
    simp only [Fix.removal, List.length_append, List.length_cons, List.length_nil]
    omega
  · have hrow : (layout.upper.length : Int) + 2
        = (layout.upper ++ [layout.lastLine ++ layout.behind]).length + 1 := by
      rw [List.length_append, List.length_singleton]
      omega
    obtain ⟨-, hdrop⟩ := Position.cut_at_row (p := ⟨layout.upper.length + 2, 1⟩)
      (layout.upper ++ [layout.lastLine ++ layout.behind]) line rest hrow
    rw [hlines, hdrop, keptBack, if_pos hheads, hrest, joinWith_cons_eq]
    rfl

theorem cuts_alone (habove : layout.above = []) (hbelow : layout.below = []) :
    layout.Cuts ⟨⟨1, 1⟩, layout.range.stop⟩ := by
  have hheads : ¬ layout.Heads := fun h => h.2 hbelow
  refine ⟨?_, take_first habove, ?_⟩
  · have hstop := layout.row_stop
    have hcolumn := layout.column_stop
    have hlength := layout.length_lines
    rw [Fix.addresses_iff, Position.upTo_iff]
    simp only [Fix.removal]
    omega
  · rw [layout.drop_stop, keptBack, if_neg hheads]

/-- **The removal of a statement cuts the text where its layout says.** -/
theorem cuts_removalRange (layout : Layout) :
    layout.Cuts (removalRange layout.lines layout.range) := by
  rcases List.eq_nil_or_concat' layout.above with habove | ⟨rows, last, habove⟩
  · by_cases hbelow : layout.below = []
    · rw [removalRange_alone habove hbelow]
      exact cuts_alone habove hbelow
    · have hheads : layout.Heads := ⟨habove, hbelow⟩
      rw [removalRange_heads hheads]
      exact cuts_heads hheads
  · rw [removalRange_below habove]
    exact cuts_below habove

/-- **Removing a statement takes away what its layout says**, and succeeds. -/
theorem applyFixes_removalRange {source : String}
    (hsource : source.toList = layout.before ++ (layout.text ++ layout.after))
    (htext : layout.text ≠ []) :
    applyFixes [Fix.removal (removalRange (linesOf source) layout.range)] source
      = .ok (String.ofList (layout.keptFront ++ layout.keptBack)) := by
  obtain ⟨haddresses, hfront, hback⟩ := layout.cuts_removalRange
  rw [joinWith_lines, ← hsource, ← linesOf_eq hsource] at hfront hback
  rw [← linesOf_eq hsource] at haddresses
  rw [eq_kept_append] at hsource
  exact applyFixes_removal haddresses hsource (by simp [removed, htext]) hfront hback

end Layout

end ProjectReview
