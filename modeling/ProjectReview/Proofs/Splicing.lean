import Mathlib.Data.List.Infix
import ProjectReview.Proofs.Sorting
import ProjectReview.Source.Fix

set_option autoImplicit false

/-! # Fixes as replacements in a text

Fixes are carried out on the lines of a source, one after the other, from the farthest to the
nearest. Here they are looked at as replacements in the text as a whole: a position has an `offset`
there, a fix is the `Span` between two offsets with a new text, and `replaceSpans` puts the new
texts of spans in ascending order in their places, with the text between them as it is.

A single fix does just that (`joinWith_splice`). A batch does, too (`ofLines_spliceAll`), since a
fix leaves the lines alone up to its start (`SameUpTo.splice`) and the fixes of a batch are
separate: in the order in which they are carried out, each stops where the one before starts, or in
front of it (`Separate`). This asks that no fix stops past the end of a line where another one
starts (`StopInside`): there the later fix has put its text where the earlier one still expects the
end of the line. -/

namespace ProjectReview

/-! ## Lines and texts -/

theorem joinWith_append_right (c : Char) (above : List (List Char)) {below : List (List Char)}
    (h : below ≠ []) :
    joinWith c (above ++ below) = above.flatMap (· ++ [c]) ++ joinWith c below := by
  induction above with
  | nil => rfl
  | cons line rest ih =>
    rw [List.cons_append, joinWith_cons_of_ne_nil c line _ (by simp [h]), ih]
    simp

theorem joinWith_cons_eq (c : Char) (line : List Char) (rest : List (List Char)) :
    joinWith c (line :: rest) = line ++ rest.flatMap (c :: ·) := by
  induction rest generalizing line with
  | nil => simp [joinWith]
  | cons next rest ih => rw [joinWith_cons_of_ne_nil c line _ (by simp), ih]; simp

theorem joinWith_append_left (c : Char) {above : List (List Char)} (below : List (List Char))
    (h : above ≠ []) :
    joinWith c (above ++ below) = joinWith c above ++ below.flatMap (c :: ·) := by
  cases above with
  | nil => exact absurd rfl h
  | cons line rest => rw [List.cons_append, joinWith_cons_eq, joinWith_cons_eq]; simp

/-- The line of a row, counted from zero. -/
def lineAt (lines : List (List Char)) (row : Nat) : List Char :=
  lines[row]?.getD []

/-- The lines above a row, each with its line feed. -/
def textAbove (lines : List (List Char)) (row : Nat) : List Char :=
  (lines.take row).flatMap (· ++ ['\n'])

/-- The lines below a row, each with the line feed in front of it. -/
def textBelow (lines : List (List Char)) (row : Nat) : List Char :=
  (lines.drop (row + 1)).flatMap ('\n' :: ·)

theorem lineAt_eq {lines : List (List Char)} {row : Nat} (h : row < lines.length) :
    lineAt lines row = lines[row] := by
  simp [lineAt, h]

theorem lineAt_eq_of_take {source lines : List (List Char)} {row later : Nat}
    (h : lines.take later = source.take later) (hrow : row < later) :
    lineAt lines row = lineAt source row := by
  rw [lineAt, lineAt, ← List.getElem?_take_of_lt hrow, h, List.getElem?_take_of_lt hrow]

theorem not_mem_lineAt {c : Char} {lines : List (List Char)} (h : ∀ line ∈ lines, c ∉ line)
    (row : Nat) : c ∉ lineAt lines row := by
  rw [lineAt]
  cases hline : lines[row]? with
  | none => simp
  | some line => exact h line (List.mem_of_getElem? hline)

theorem textAbove_succ {lines : List (List Char)} {row : Nat} (h : row < lines.length) :
    textAbove lines (row + 1) = textAbove lines row ++ (lineAt lines row ++ ['\n']) := by
  rw [textAbove, textAbove, lineAt_eq h, List.take_succ_eq_append_getElem h, List.flatMap_append]
  simp

theorem textAbove_isPrefix (lines : List (List Char)) {row later : Nat} (h : row ≤ later) :
    textAbove lines row <+: textAbove lines later :=
  List.IsPrefix.flatMap (List.take_prefix_take_left h) _

theorem joinWith_eq_around {lines : List (List Char)} {row : Nat} (h : row < lines.length) :
    joinWith '\n' lines = textAbove lines row ++ (lineAt lines row ++ textBelow lines row) := by
  have hlines : lines = lines.take row ++ ([lineAt lines row] ++ lines.drop (row + 1)) := by
    rw [lineAt_eq h, List.singleton_append, ← List.drop_eq_getElem_cons h, List.take_append_drop]
  conv_lhs => rw [hlines]
  rw [joinWith_append_right _ _ (by simp), joinWith_append_left _ _ (by simp)]
  rfl

namespace Position

/-- The row, counted from zero. -/
def rowIndex (p : Position) : Nat :=
  (p.row - 1).toNat

/-- The column, counted from zero. -/
def columnIndex (p : Position) : Nat :=
  (p.column - 1).toNat

/-- How much of the text stands before the position; a column past the end of a line stands for its
    end. -/
def offset (lines : List (List Char)) (p : Position) : Nat :=
  (textAbove lines p.rowIndex).length + min p.columnIndex (lineAt lines p.rowIndex).length

variable {lines : List (List Char)} {p q : Position}

theorem take_offset (h : p.rowIndex < lines.length) :
    (joinWith '\n' lines).take (p.offset lines)
      = textAbove lines p.rowIndex ++ (lineAt lines p.rowIndex).take p.columnIndex := by
  rw [joinWith_eq_around h, offset, List.take_length_add_append]
  congr 1
  rw [List.take_append_of_le_length (Nat.min_le_right _ _), ← List.take_eq_take_min]

theorem drop_offset (h : p.rowIndex < lines.length) :
    (joinWith '\n' lines).drop (p.offset lines)
      = (lineAt lines p.rowIndex).drop p.columnIndex ++ textBelow lines p.rowIndex := by
  rw [joinWith_eq_around h, offset, List.drop_length_add_append,
    List.drop_append_of_le_length (Nat.min_le_right _ _)]
  congr 1
  rcases Nat.le_total p.columnIndex (lineAt lines p.rowIndex).length with hle | hle
  · rw [Nat.min_eq_left hle]
  · rw [Nat.min_eq_right hle, List.drop_length, List.drop_eq_nil_of_le hle]

theorem offset_le_length (h : p.rowIndex < lines.length) :
    p.offset lines ≤ (joinWith '\n' lines).length := by
  rw [joinWith_eq_around h, offset, List.length_append, List.length_append]
  omega

/-- A position that is not behind another has no greater offset. -/
theorem offset_le (hp : 1 ≤ p.row) (hrow : q.rowIndex < lines.length) (h : p.upTo q = true) :
    p.offset lines ≤ q.offset lines := by
  rw [upTo_iff] at h
  rcases h with hbefore | ⟨hsame, hcolumn⟩
  · have hrows : p.rowIndex < q.rowIndex := by simp only [rowIndex]; omega
    have habove := (textAbove_isPrefix lines (Nat.succ_le_of_lt hrows)).length_le
    rw [textAbove_succ (hrows.trans hrow), List.length_append, List.length_append] at habove
    simp only [offset]
    omega
  · have hrows : p.rowIndex = q.rowIndex := by simp only [rowIndex, hsame]
    have hcolumns : p.columnIndex ≤ q.columnIndex := by simp only [columnIndex]; omega
    simp only [offset, hrows]
    omega

end Position

theorem not_mem_of_mem_cutAt {c : Char} {s piece : List Char} (h : piece ∈ cutAt c s) :
    c ∉ piece := by
  induction s generalizing piece with
  | nil =>
    obtain rfl : piece = [] := by simpa [cutAt] using h
    simp
  | cons x xs ih =>
    rw [cutAt] at h
    split at h
    · rcases List.mem_cons.1 h with rfl | h
      · simp
      · exact ih h
    · next hx =>
      split at h
      · next hnil => exact absurd hnil (cutAt_ne_nil c xs)
      · next first rest hcut =>
        rw [hcut] at ih
        rcases List.mem_cons.1 h with rfl | h
        · rw [List.mem_cons, not_or]
          exact ⟨fun hsame => hx hsame.symm, ih List.mem_cons_self⟩
        · exact ih (List.mem_cons_of_mem _ h)

/-- The first piece starts with what stands before the first cut. -/
theorem head_cutAt_append {c : Char} {start : List Char} (h : c ∉ start) (rest : List Char) :
    ∃ more pieces, cutAt c (start ++ rest) = (start ++ more) :: pieces := by
  induction start with
  | nil =>
    cases hcut : cutAt c rest with
    | nil => exact absurd hcut (cutAt_ne_nil c rest)
    | cons piece pieces => exact ⟨piece, pieces, hcut⟩
  | cons x xs ih =>
    rw [List.mem_cons, not_or] at h
    obtain ⟨more, pieces, hcut⟩ := ih h.2
    refine ⟨more, pieces, ?_⟩
    rw [List.cons_append, cutAt, if_neg (fun hsame => h.1 hsame.symm), hcut]
    rfl

/-! ## One fix -/

namespace Fix

variable {fix : Fix} {lines : List (List Char)}

/-- What stays in front of the fix on its first line. -/
def keptBefore (fix : Fix) (lines : List (List Char)) : List Char :=
  (lineAt lines fix.range.start.rowIndex).take fix.range.start.columnIndex

/-- What stays behind the fix on its last line. -/
def keptBehind (fix : Fix) (lines : List (List Char)) : List Char :=
  (lineAt lines fix.range.stop.rowIndex).drop fix.range.stop.columnIndex

theorem splice_eq (fix : Fix) (lines : List (List Char)) :
    fix.splice lines = lines.take fix.range.start.rowIndex ++
      (cutAt '\n' (fix.keptBefore lines ++ (fix.replacement.toList ++ fix.keptBehind lines)) ++
        lines.drop (fix.range.stop.rowIndex + 1)) := by
  rw [splice, List.append_assoc, ← List.append_assoc (fix.keptBefore lines)]
  rfl

/-- **Carrying a fix out replaces the text between the offsets of its range.** -/
theorem joinWith_splice (hstart : fix.range.start.rowIndex < lines.length)
    (hstop : fix.range.stop.rowIndex < lines.length) :
    joinWith '\n' (fix.splice lines)
      = (joinWith '\n' lines).take (fix.range.start.offset lines) ++ fix.replacement.toList ++
        (joinWith '\n' lines).drop (fix.range.stop.offset lines) := by
  have hcut := cutAt_ne_nil '\n'
  rw [splice_eq, joinWith_append_right _ _ (by simp [hcut]), joinWith_append_left _ _ (hcut _),
    joinWith_cutAt, Position.take_offset hstart, Position.drop_offset hstop]
  simp [textAbove, textBelow, keptBefore, keptBehind]

theorem take_splice (hstart : fix.range.start.rowIndex < lines.length) {row : Nat}
    (hrow : row ≤ fix.range.start.rowIndex) : (fix.splice lines).take row = lines.take row := by
  have hlength : row ≤ (lines.take fix.range.start.rowIndex).length := by
    rw [List.length_take]
    omega
  rw [splice_eq, List.take_append_of_le_length hlength, List.take_take, Nat.min_eq_left hrow]

/-- The first line of a fix still starts as it did. -/
theorem lineAt_splice (hstart : fix.range.start.rowIndex < lines.length)
    (hkept : '\n' ∉ fix.keptBefore lines) :
    fix.range.start.rowIndex < (fix.splice lines).length ∧
      fix.keptBefore lines <+: lineAt (fix.splice lines) fix.range.start.rowIndex := by
  obtain ⟨more, pieces, hcut⟩ := head_cutAt_append hkept
    (fix.replacement.toList ++ fix.keptBehind lines)
  have hlength : (lines.take fix.range.start.rowIndex).length = fix.range.start.rowIndex := by
    rw [List.length_take]
    omega
  rw [lineAt, splice_eq, hcut, List.getElem?_append_right (by rw [hlength]), hlength, Nat.sub_self]
  constructor
  · rw [List.length_append, hlength, List.cons_append, List.length_cons]
    omega
  · exact List.prefix_append _ _

end Fix

/-- Two sources have the same text up to a position. -/
structure SameUpTo (source lines : List (List Char)) (p : Position) : Prop where
  row : p.rowIndex < lines.length
  above : lines.take p.rowIndex = source.take p.rowIndex
  line : (lineAt lines p.rowIndex).take p.columnIndex
    = (lineAt source p.rowIndex).take p.columnIndex

namespace SameUpTo

variable {source lines : List (List Char)} {p q : Position}

theorem refl (h : p.rowIndex < source.length) : SameUpTo source source p :=
  ⟨h, rfl, rfl⟩

theorem offset_eq (h : SameUpTo source lines p) : p.offset lines = p.offset source := by
  have hline := congrArg List.length h.line
  rw [List.length_take, List.length_take] at hline
  rw [Position.offset, Position.offset, textAbove, textAbove, h.above, hline]

/-- **A fix leaves the text alone up to its start.** A position on the line where the fix starts
    must exist, since what was the end of that line may have moved. -/
theorem splice {fix : Fix} (hstart : SameUpTo source lines fix.range.start)
    (hsource : ∀ line ∈ source, '\n' ∉ line)
    (hrow : 1 ≤ p.row) (hp : p.upTo fix.range.start = true)
    (hinside : p.row = fix.range.start.row →
      p.columnIndex ≤ (lineAt source p.rowIndex).length) :
    SameUpTo source (fix.splice lines) p := by
  have hkept : fix.keptBefore lines
      = (lineAt source fix.range.start.rowIndex).take fix.range.start.columnIndex := hstart.line
  have hplain : '\n' ∉ fix.keptBefore lines := by
    rw [hkept]
    exact fun hmem => not_mem_lineAt hsource _ (List.mem_of_mem_take hmem)
  obtain ⟨hlength, hline⟩ := fix.lineAt_splice hstart.row hplain
  have habove : (fix.splice lines).take fix.range.start.rowIndex
      = source.take fix.range.start.rowIndex := by
    rw [Fix.take_splice hstart.row le_rfl, hstart.above]
  rw [Position.upTo_iff] at hp
  rcases hp with hbefore | ⟨hsame, hcolumn⟩
  · -- The lines above the fix are not touched.
    have hrows : p.rowIndex < fix.range.start.rowIndex := by
      simp only [Position.rowIndex]
      omega
    refine ⟨hrows.trans hlength, ?_, ?_⟩
    · have htake := congrArg (List.take p.rowIndex) habove
      rwa [List.take_take, List.take_take, Nat.min_eq_left hrows.le] at htake
    · rw [lineAt_eq_of_take habove hrows]
  · -- On its first line, the fix keeps what stands in front of it.
    have hrows : p.rowIndex = fix.range.start.rowIndex := by
      simp only [Position.rowIndex, hsame]
    have hcolumns : p.columnIndex ≤ fix.range.start.columnIndex := by
      simp only [Position.columnIndex]
      omega
    have hshort := hinside hsame
    rw [hrows] at hshort
    refine ⟨hrows ▸ hlength, hrows ▸ habove, ?_⟩
    obtain ⟨more, hmore⟩ := hline
    rw [hrows, ← hmore, hkept, List.take_append_of_le_length, List.take_take,
      Nat.min_eq_left hcolumns]
    rw [List.length_take]
    omega

end SameUpTo

/-! ## Spans of a text -/

/-- A part of a text, from one offset to another, and what is put in its place. -/
structure Span where
  start : Nat
  stop : Nat
  replacement : List Char

/-- The text from an offset on, with spans in ascending order replaced and the text between them as
    it is. -/
def replaceSpans (text : List Char) : Nat → List Span → List Char
  | first, [] => text.drop first
  | first, span :: rest =>
    (text.take span.start).drop first ++ span.replacement ++ replaceSpans text span.stop rest

/-- The spans follow each other from an offset on, in a text of that size. -/
def InOrder (size : Nat) : Nat → List Span → Prop
  | first, [] => first ≤ size
  | first, span :: rest => first ≤ span.start ∧ span.start ≤ span.stop ∧ InOrder size span.stop rest

theorem InOrder.le {size first : Nat} {spans : List Span} (h : InOrder size first spans) :
    first ≤ size := by
  induction spans generalizing first with
  | nil => exact h
  | cons span rest ih =>
    obtain ⟨hstart, hstop, hrest⟩ := h
    exact hstart.trans (hstop.trans (ih hrest))

theorem replaceSpans_nil (text : List Char) : replaceSpans text 0 [] = text := rfl

/-- In front of the first span the text is as it is. -/
theorem replaceSpans_zero {text : List Char} {first : Nat} {spans : List Span}
    (h : InOrder text.length first spans) :
    replaceSpans text 0 spans = text.take first ++ replaceSpans text first spans := by
  cases spans with
  | nil => rw [replaceSpans, replaceSpans, List.drop_zero, List.take_append_drop]
  | cons span rest =>
    have htake : text.take first = (text.take span.start).take first := by
      rw [List.take_take, Nat.min_eq_left h.1]
    rw [replaceSpans, replaceSpans, List.drop_zero, htake, ← List.append_assoc, ← List.append_assoc,
      List.take_append_drop]

/-- Another span in front of the others is replaced in the text where they have been replaced. -/
theorem replaceSpans_cons {text : List Char} {span : Span} {spans : List Span}
    (hspan : span.start ≤ span.stop) (h : InOrder text.length span.stop spans) :
    replaceSpans text 0 (span :: spans)
      = (replaceSpans text 0 spans).take span.start ++ span.replacement ++
        (replaceSpans text 0 spans).drop span.stop := by
  have hlength : (text.take span.stop).length = span.stop := by
    rw [List.length_take, Nat.min_eq_left h.le]
  have hdrop : (replaceSpans text 0 spans).drop span.stop = replaceSpans text span.stop spans := by
    rw [replaceSpans_zero h, List.drop_left' hlength]
  have htake : (replaceSpans text 0 spans).take span.start = text.take span.start := by
    rw [replaceSpans_zero h, List.take_append_of_le_length (by rw [hlength]; exact hspan),
      List.take_take, Nat.min_eq_left hspan]
  rw [hdrop, htake, replaceSpans, List.drop_zero]

/-! ## Batches -/

namespace Fix

/-- The fix as a span of the source's text. -/
def span (source : List (List Char)) (fix : Fix) : Span :=
  ⟨fix.range.start.offset source, fix.range.stop.offset source, fix.replacement.toList⟩

theorem addresses_iff (fix : Fix) (lineCount : Nat) :
    fix.addresses lineCount = true ↔ 1 ≤ fix.range.start.row ∧ fix.range.stop.row ≤ lineCount ∧
      1 ≤ fix.range.start.column ∧ 1 ≤ fix.range.stop.column ∧
      fix.range.start.upTo fix.range.stop = true := by
  simp [addresses, and_assoc]

/-- A fix that addresses a source starts on a row of it and stops there or on a later one. -/
theorem rows_of_addresses {fix : Fix} {source : List (List Char)}
    (h : fix.addresses source.length = true) :
    fix.range.start.row ≤ fix.range.stop.row ∧ fix.range.start.rowIndex < source.length ∧
      fix.range.stop.rowIndex < source.length := by
  rw [addresses_iff, Position.upTo_iff] at h
  simp only [Position.rowIndex]
  omega

/-- The earlier fix stops where the later one starts or before, and if on the same line, then at a
    column that exists. -/
structure Separate (source : List (List Char)) (later earlier : Fix) : Prop where
  upTo : earlier.range.stop.upTo later.range.start = true
  inside : earlier.range.stop.row = later.range.start.row →
    earlier.range.stop.columnIndex ≤ (lineAt source earlier.range.stop.rowIndex).length

/-- Carrying the later fix out leaves the source alone up to the end of the earlier one. -/
theorem Separate.sameUpTo {source lines : List (List Char)} {later earlier : Fix}
    (h : Separate source later earlier) (hsource : ∀ line ∈ source, '\n' ∉ line)
    (hearlier : earlier.addresses source.length = true)
    (hlines : SameUpTo source lines later.range.start) :
    SameUpTo source (later.splice lines) earlier.range.start ∧
      SameUpTo source (later.splice lines) earlier.range.stop := by
  have hstop := h.upTo
  obtain ⟨hrow, -, hcolumn, hcolumn', hforward⟩ := (earlier.addresses_iff _).1 hearlier
  rw [Position.upTo_iff] at hstop hforward
  constructor
  · refine hlines.splice hsource hrow ((Position.upTo_iff _ _).2 (by omega)) fun hsame => ?_
    have hstopRow : earlier.range.stop.row = later.range.start.row := by omega
    have hrows : earlier.range.start.rowIndex = earlier.range.stop.rowIndex := by
      simp only [Position.rowIndex]
      omega
    have hinside := h.inside hstopRow
    rw [hrows]
    simp only [Position.columnIndex] at hinside ⊢
    omega
  · exact hlines.splice hsource (by omega) h.upTo h.inside

end Fix

/-- **Carrying separate fixes out, the farthest first, replaces their spans.** The invariant is that
    the lines hold the text in which the spans of the fixes so far are replaced, and are those of
    the source up to the ends of the fixes to come. -/
theorem joinWith_foldl_splice {source : List (List Char)} (hsource : ∀ line ∈ source, '\n' ∉ line)
    {fixes : List Fix} (haddresses : ∀ fix ∈ fixes, fix.addresses source.length = true)
    (hseparate : fixes.Pairwise (Fix.Separate source)) {lines : List (List Char)}
    {done : List Span}
    (hsame : ∀ fix ∈ fixes, SameUpTo source lines fix.range.start ∧
      SameUpTo source lines fix.range.stop)
    (hlines : joinWith '\n' lines = replaceSpans (joinWith '\n' source) 0 done)
    (horder : ∀ fix ∈ fixes,
      InOrder (joinWith '\n' source).length (fix.range.stop.offset source) done) :
    joinWith '\n' (fixes.foldl (fun lines fix => fix.splice lines) lines)
      = replaceSpans (joinWith '\n' source) 0 (fixes.reverse.map (Fix.span source) ++ done) := by
  induction fixes generalizing lines done with
  | nil => simpa using hlines
  | cons fix rest ih =>
    rw [List.forall_mem_cons] at haddresses hsame horder
    rw [List.pairwise_cons] at hseparate
    obtain ⟨hstart, hstop⟩ := hsame.1
    obtain ⟨hrow, -, -, -, hforward⟩ := (fix.addresses_iff _).1 haddresses.1
    obtain ⟨-, hstartRow, hstopRow⟩ := Fix.rows_of_addresses haddresses.1
    have hspan : (fix.span source).start ≤ (fix.span source).stop :=
      Position.offset_le hrow hstopRow hforward
    have hnext : joinWith '\n' (fix.splice lines)
        = replaceSpans (joinWith '\n' source) 0 (fix.span source :: done) := by
      rw [Fix.joinWith_splice hstart.row hstop.row, replaceSpans_cons hspan horder.1, hlines,
        hstart.offset_eq, hstop.offset_eq]
      rfl
    -- The fixes to come stop in front of this one, so the invariant holds for them again.
    rw [List.foldl_cons, ih haddresses.2 hseparate.2 ?_ hnext ?_]
    · simp
    · intro other hother
      exact (hseparate.1 other hother).sameUpTo hsource (haddresses.2 other hother) hstart
    · intro other hother
      obtain ⟨hother', -, -, -, -⟩ := (other.addresses_iff _).1 (haddresses.2 other hother)
      have hrows := (Fix.rows_of_addresses (haddresses.2 other hother)).1
      have hle := Position.offset_le (hother'.trans hrows) hstartRow (hseparate.1 other hother).upTo
      exact ⟨hle, hspan, horder.1⟩

/-! ## Batches without collisions -/

theorem collisionAmong_eq_none_iff (fixes : List (Nat × Fix)) :
    collisionAmong fixes = none ↔
      fixes.Pairwise fun a b => a.2.range.overlaps b.2.range = false := by
  induction fixes with
  | nil => simp [collisionAmong]
  | cons fix rest ih =>
    rw [collisionAmong, firstOverlap, List.pairwise_cons, ← ih]
    cases hfind : rest.find? fun other => fix.2.range.overlaps other.2.range with
    | none =>
      have hfirst : ∀ other ∈ rest, fix.2.range.overlaps other.2.range = false :=
        fun other hother => Bool.eq_false_iff.2 (List.find?_eq_none.1 hfind other hother)
      exact (and_iff_right hfirst).symm
    | some other =>
      have hoverlap := List.find?_some hfind
      have hmem := List.mem_of_find?_eq_some hfind
      simp only [reduceCtorEq, false_iff, not_and]
      intro hnone
      rw [hnone other hmem] at hoverlap
      cases hoverlap

/-- A batch has no collision just when no two of its fixes overlap. -/
theorem findCollision_eq_none_iff (fixes : List Fix) :
    findCollision fixes = none ↔ fixes.Pairwise fun a b => a.range.overlaps b.range = false := by
  have hfixes : (fixes.zipIdx.map fun numbered => (numbered.2, numbered.1)).map Prod.snd
      = fixes := by
    rw [List.map_map]
    exact List.zipIdx_map_fst 0 fixes
  rw [findCollision, collisionAmong_eq_none_iff]
  conv_rhs => rw [← hfixes, List.pairwise_map]

instance : Std.Total fun a b : Fix => b.range.upTo a.range = true where
  total a b := by
    simp only [Range.upTo_iff]
    omega

instance : IsTrans Fix fun a b => b.range.upTo a.range = true where
  trans a b c := by
    simp only [Range.upTo_iff]
    omega

/-- Ranges do not overlap just when one of them stops where the other starts, or in front of it. -/
theorem Range.overlaps_eq_false_iff (a b : Range) :
    a.overlaps b = false ↔ a.stop.upTo b.start = true ∨ b.stop.upTo a.start = true := by
  simp only [Range.overlaps, Position.upTo, Bool.and_eq_false_iff, Bool.not_eq_true']

/-- Of two ranges in ascending order it is the first that stops where the other starts, or in front
    of it. -/
theorem Range.overlaps_eq_false_iff_of_upTo {a b : Range} (h : a.upTo b = true)
    (hforward : b.start.upTo b.stop = true) :
    a.overlaps b = false ↔ a.stop.upTo b.start = true := by
  rw [Range.overlaps_eq_false_iff, or_iff_left_of_imp]
  intro hstop
  -- Here the second starts and stops where the first starts, so the first stops there as well.
  rw [Range.upTo_iff] at h
  rw [Position.upTo_iff] at hforward hstop ⊢
  omega

/-- Fixes that are not reversed have no collision just when they are carried out one behind the
    other: each stops where those before it start, or in front. -/
theorem findCollision_eq_none_iff_carryOutOrder {fixes : List Fix}
    (hforward : ∀ fix ∈ fixes, fix.range.start.upTo fix.range.stop = true) :
    findCollision fixes = none ↔ (carryOutOrder fixes).Pairwise fun later earlier =>
      earlier.range.stop.upTo later.range.start = true := by
  have hperm : (carryOutOrder fixes).Perm fixes := perm_sortBy _ fixes
  have hsorted : (carryOutOrder fixes).Pairwise fun a b => b.range.upTo a.range = true :=
    pairwise_sortBy _ fixes
  have hpair : ∀ later ∈ carryOutOrder fixes, ∀ earlier : Fix,
      earlier.range.upTo later.range = true →
      (later.range.overlaps earlier.range = false ↔
        earlier.range.stop.upTo later.range.start = true) := by
    intro later hlater earlier hupTo
    rw [Range.overlaps_comm]
    exact Range.overlaps_eq_false_iff_of_upTo hupTo (hforward later (hperm.mem_iff.1 hlater))
  rw [findCollision_eq_none_iff,
    ← hperm.pairwise_iff fun {a b} h => by rwa [Range.overlaps_comm]]
  constructor
  · intro hapart
    refine (hsorted.and hapart).imp_of_mem ?_
    rintro later earlier hlater - ⟨hupTo, hoverlap⟩
    exact (hpair later hlater earlier hupTo).1 hoverlap
  · intro hbehind
    refine (hsorted.and hbehind).imp_of_mem ?_
    rintro later earlier hlater - ⟨hupTo, hstop⟩
    exact (hpair later hlater earlier hupTo).2 hstop

/-- Fixes of a source that do not overlap are carried out one behind the other. -/
theorem pairwise_carryOutOrder {fixes : List Fix} {lineCount : Nat}
    (hnone : findCollision fixes = none)
    (haddresses : ∀ fix ∈ fixes, fix.addresses lineCount = true) :
    (carryOutOrder fixes).Pairwise fun later earlier =>
      earlier.range.stop.upTo later.range.start = true := by
  refine (findCollision_eq_none_iff_carryOutOrder fun fix hfix => ?_).1 hnone
  exact ((fix.addresses_iff _).1 (haddresses fix hfix)).2.2.2.2

/-- No fix of the batch stops past the end of a line on which a fix that is carried out before it
    starts. -/
def StopInside (fixes : List Fix) (source : List (List Char)) : Prop :=
  (carryOutOrder fixes).Pairwise fun later earlier =>
    earlier.range.stop.row = later.range.start.row →
      earlier.range.stop.columnIndex ≤ (lineAt source earlier.range.stop.rowIndex).length

/-- The text with the ranges of the fixes replaced and everything else as it is. -/
def patch (fixes : List Fix) (text : String) : String :=
  String.ofList (replaceSpans text.toList 0
    ((carryOutOrder fixes).reverse.map (Fix.span (linesOf text))))

/-- A batch that is accepted has no collision, its fixes address the source, and it gives the source
    with the fixes carried out. -/
theorem applyFixes_eq_ok {fixes : List Fix} {source result : String}
    (h : applyFixes fixes source = .ok result) :
    findCollision fixes = none ∧
      (∀ fix ∈ fixes, fix.addresses (linesOf source).length = true) ∧
      result = ofLines (spliceAll fixes (linesOf source)) := by
  rw [applyFixes] at h
  split at h
  · exact nomatch h
  · next hnone =>
    dsimp only at h
    split at h
    · exact nomatch h
    · next hfind =>
      split at h
      · exact nomatch h
      · refine ⟨hnone, fun fix hfix => ?_, (Except.ok.inj h).symm⟩
        simpa using List.find?_eq_none.1 hfind fix hfix

/-- **Carrying out a batch replaces the ranges of its fixes and nothing else**, if they do not
    overlap, address the source and stop inside of lines. -/
theorem ofLines_spliceAll {fixes : List Fix} {source : String} (hnone : findCollision fixes = none)
    (haddresses : ∀ fix ∈ fixes, fix.addresses (linesOf source).length = true)
    (hinside : StopInside fixes (linesOf source)) :
    ofLines (spliceAll fixes (linesOf source)) = patch fixes source := by
  have hordered : ∀ fix ∈ carryOutOrder fixes, fix.addresses (linesOf source).length = true :=
    fun fix hfix => haddresses fix ((mem_sortBy _ fix fixes).1 hfix)
  have hseparate : (carryOutOrder fixes).Pairwise (Fix.Separate (linesOf source)) :=
    ((pairwise_carryOutOrder hnone haddresses).and hinside).imp fun ⟨hupTo, hcolumn⟩ =>
      ⟨hupTo, hcolumn⟩
  have hsource : joinWith '\n' (linesOf source) = source.toList := joinWith_cutAt _ _
  have hsame : ∀ fix ∈ carryOutOrder fixes,
      SameUpTo (linesOf source) (linesOf source) fix.range.start ∧
        SameUpTo (linesOf source) (linesOf source) fix.range.stop := fun fix hfix =>
    have hrows := (Fix.rows_of_addresses (hordered fix hfix)).2
    ⟨.refl hrows.1, .refl hrows.2⟩
  have hlines : ∀ line ∈ linesOf source, '\n' ∉ line := fun line => not_mem_of_mem_cutAt
  have hfold := joinWith_foldl_splice hlines hordered hseparate hsame (replaceSpans_nil _).symm
    fun fix hfix => Position.offset_le_length (Fix.rows_of_addresses (hordered fix hfix)).2.2
  rw [hsource, List.append_nil] at hfold
  rw [ofLines, spliceAll, patch, hfold]

end ProjectReview
