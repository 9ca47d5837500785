import Mathlib.Algebra.GroupWithZero.Nat
import ProjectReview.Proofs.Batches

set_option autoImplicit false

/-! # The text that a batch of fixes gives

Where the positions of its fixes exist in the source, a batch replaces the text between them and
nothing else (`batch_splices_exactly`). The replaced parts follow each other as the fixes do in
ascending order of their ranges, insertions at one position last one first; that order is the one in
which the fixes are carried out, read backwards (`StableSorted.reverse`).

A fix may also name a column past the end of a line, which stands for its end. If another fix starts
on that line, it has been carried out before, and what it put there is in the place of those
columns. So a fix can cover more than its range covers in the source, never less
(`Fix.Ready.covered_le`), and what it covers more is text of the other. `overrun` counts that, and
`length_of_batch` gives the length of the text with it: the length of the source, with what the
fixes put in and without what their ranges cover, and without the overrun. It is nothing if no fix
stops past the end of a line on which another starts, and else it need not be
(`batch_loses_insertion`). -/

namespace ProjectReview

/-! ## Positions that exist -/

/-- The position exists in the text of the lines: its row is one of theirs, and its column is that of
    a character of the line, or the one behind the last. -/
structure Position.ExistsIn (lines : List (List Char)) (p : Position) : Prop where
  row : 1 ≤ p.row ∧ p.row ≤ lines.length
  column : 1 ≤ p.column ∧ p.column ≤ (lineAt lines p.rowIndex).length + 1

/-- Both ends of the range exist, and it does not stop before it starts. -/
structure Range.ExistsIn (lines : List (List Char)) (range : Range) : Prop where
  start : range.start.ExistsIn lines
  stop : range.stop.ExistsIn lines
  forward : range.start.upTo range.stop = true

theorem Fix.addresses_of_existsIn {fix : Fix} {lines : List (List Char)}
    (h : fix.range.ExistsIn lines) : fix.addresses lines.length = true :=
  (fix.addresses_iff _).2
    ⟨h.start.row.1, h.stop.row.2, h.start.column.1, h.stop.column.1, h.forward⟩

theorem stopInside_of_existsIn {fixes : List Fix} {lines : List (List Char)}
    (h : ∀ fix ∈ fixes, fix.range.ExistsIn lines) : StopInside fixes lines := by
  refine List.pairwise_of_forall_mem_list fun later _ earlier hearlier _ => ?_
  have hcolumn := (h earlier ((mem_sortBy _ earlier fixes).1 hearlier)).stop.column.2
  rw [Position.columnIndex]
  omega

/-- **The order in which fixes are carried out, read backwards, is ascending**, and fixes at one
    range are in the reverse of the order in which they were supplied. -/
theorem stableSorted_carryOutOrder (fixes : List Fix) :
    StableSorted (fun a b => a.range.upTo b.range) fixes.reverse (carryOutOrder fixes).reverse :=
  (stableSorted_sortBy (fun a b : Fix => b.range.upTo a.range) fixes).reverse

instance : Std.Total fun a b : Fix => a.range.upTo b.range = true where
  total a b := by
    simp only [Range.upTo_iff]
    omega

/-- **A batch is an exact splice.** If its fixes do not overlap and their positions exist in the
    source, then carrying them out line by line gives the source with the text between the offsets of
    each fix replaced, in ascending order of the ranges and, for insertions at one position, in the
    reverse of the order in which they were supplied; and the batch gives that text, if it is not the
    source itself. -/
theorem batch_splices_exactly {fixes ordered : List Fix} {source : String} (hapart : Apart fixes)
    (hexist : ∀ fix ∈ fixes, fix.range.ExistsIn (linesOf source))
    (hordered : StableSorted (fun a b => a.range.upTo b.range) fixes.reverse ordered) :
    (spliced fixes source).toList
      = replaceSpans source.toList 0 (ordered.map (Fix.span (linesOf source))) ∧
    applyFixes fixes source
      = if spliced fixes source = source then .error .unchanged else .ok (spliced fixes source) := by
  have haddresses : ∀ fix ∈ fixes, fix.addresses (linesOf source).length = true :=
    fun fix hfix => Fix.addresses_of_existsIn (hexist fix hfix)
  have hinside : ∀ fix ∈ fixes, ¬ fix.Outside (linesOf source).length :=
    fun fix hfix => (fix.addresses_iff_not_outside _).1 (haddresses fix hfix)
  constructor
  · have hpatch := ofLines_spliceAll ((findCollision_eq_none_iff fixes).2 hapart) haddresses
      (stopInside_of_existsIn hexist)
    rw [spliced, hpatch, patch, String.toList_ofList,
      hordered.unique (stableSorted_carryOutOrder fixes)]
  · split
    · next hsame => exact applyFixes_eq_iff.2 (.unchanged hapart hinside hsame)
    · next hdifferent => exact applyFixes_eq_iff.2 (.applied hapart hinside hdifferent)

/-- A range over two lines, an insertion in front of it and one behind it, and two insertions at one
    position, of which the one supplied last comes first. -/
theorem batch_splices_exactly_joined :
    let fixes := [Fix.insertion ⟨3, 2⟩ "1", ⟨.of 1 2 2 2, "x\ny"⟩, Fix.insertion ⟨3, 2⟩ "2",
      Fix.insertion ⟨2, 2⟩ ">", Fix.insertion ⟨1, 2⟩ "<"]
    let ordered := [Fix.insertion ⟨1, 2⟩ "<", ⟨.of 1 2 2 2, "x\ny"⟩, Fix.insertion ⟨2, 2⟩ ">",
      Fix.insertion ⟨3, 2⟩ "2", Fix.insertion ⟨3, 2⟩ "1"]
    Apart fixes ∧ (∀ fix ∈ fixes, fix.range.ExistsIn (linesOf "ab\ncd\ne")) ∧
    StableSorted (fun a b => a.range.upTo b.range) fixes.reverse ordered ∧
    replaceSpans "ab\ncd\ne".toList 0 (ordered.map (Fix.span (linesOf "ab\ncd\ne")))
      = "a<x\ny>d\ne21".toList ∧
    applyFixes fixes "ab\ncd\ne" = .ok "a<x\ny>d\ne21" := by
  intro fixes ordered
  have hapart : Apart fixes := by
    unfold Apart
    decide
  have hexist : ∀ fix ∈ fixes, fix.range.ExistsIn (linesOf "ab\ncd\ne") := by
    simp only [fixes, List.forall_mem_cons]
    refine ⟨?_, ?_, ?_, ?_, ?_, by simp⟩ <;>
      exact ⟨⟨by decide, by decide⟩, ⟨by decide, by decide⟩, rfl⟩
  have hordered : StableSorted (fun a b => a.range.upTo b.range) fixes.reverse ordered :=
    stableSorted_carryOutOrder fixes
  have hspans : replaceSpans "ab\ncd\ne".toList 0
      (ordered.map (Fix.span (linesOf "ab\ncd\ne"))) = "a<x\ny>d\ne21".toList := by
    decide
  obtain ⟨hspliced, happlied⟩ := batch_splices_exactly hapart hexist hordered
  have htext : spliced fixes "ab\ncd\ne" = "a<x\ny>d\ne21" :=
    String.toList_injective (hspliced.trans hspans)
  rw [htext, if_neg (by decide)] at happlied
  exact ⟨hapart, hexist, hordered, hspans, happlied⟩

/-! ## How long the text is -/

/-- Text in front of a position is as long as in the source, or longer. -/
theorem StartsLike.offset_le {source lines : List (List Char)} {p : Position}
    (h : StartsLike source lines p) : p.offset source ≤ p.offset lines := by
  have hline := h.line.length_le
  rw [List.length_take] at hline
  simp only [Position.offset, textAbove, h.above]
  omega

namespace Fix

variable {fix : Fix} {source lines : List (List Char)}

/-- How many characters the range of the fix covers in the text of the lines; a column past the end
    of a line stands for its end. -/
def covered (lines : List (List Char)) (fix : Fix) : Nat :=
  fix.range.stop.offset lines - fix.range.start.offset lines

/-- Carrying a fix out takes away what it covers and puts its own text in. -/
theorem length_splice (hready : Ready source lines fix)
    (haddresses : fix.addresses source.length = true) :
    (joinWith '\n' (fix.splice lines)).length + fix.covered lines
      = (joinWith '\n' lines).length + fix.replacement.length := by
  obtain ⟨hrow, -, -, -, hforward⟩ := (fix.addresses_iff _).1 haddresses
  have hoffsets := Position.offset_le hrow hready.stop.row hforward
  have hend := Position.offset_le_length hready.stop.row
  rw [joinWith_splice hready.start.row hready.stop.row, covered, List.length_append,
    List.length_append, List.length_take, List.length_drop, String.length_toList]
  omega

/-- **When its turn comes, a fix covers as much as in the source, or more.** -/
theorem Ready.covered_le (h : Ready source lines fix)
    (haddresses : fix.addresses source.length = true) : fix.covered source ≤ fix.covered lines := by
  obtain ⟨hrow, -, -, -, hforward⟩ := (fix.addresses_iff _).1 haddresses
  have hstop := h.stop.offset_le
  rw [Position.upTo_iff] at hforward
  rcases hforward with hbefore | ⟨hsame, hcolumn⟩
  · -- The line on which the fix starts is one above its last, so it is that of the source.
    have hrows : fix.range.start.rowIndex < fix.range.stop.rowIndex := by
      simp only [Position.rowIndex]
      omega
    have hstart : fix.range.start.offset lines = fix.range.start.offset source := by
      rw [Position.offset, Position.offset, lineAt_eq_of_take h.stop.above hrows, textAbove,
        textAbove, h.start.above]
    rw [covered, covered, hstart]
    omega
  · -- On one line, the fix covers more only if the line was shorter than the column it stops at.
    have hrows : fix.range.start.rowIndex = fix.range.stop.rowIndex := by
      simp only [Position.rowIndex, hsame]
    have hcolumns : fix.range.start.columnIndex ≤ fix.range.stop.columnIndex := by
      simp only [Position.columnIndex]
      omega
    have hline := h.stop.line.length_le
    rw [List.length_take] at hline
    simp only [covered, Position.offset, textAbove, hrows, h.stop.above]
    omega

end Fix

/-- How much fixes cover that are carried out on the lines one after the other, beyond what their
    ranges cover in the source. -/
def overrun (source : List (List Char)) : List (List Char) → List Fix → Nat
  | _, [] => 0
  | lines, fix :: rest =>
    (fix.covered lines - fix.covered source) + overrun source (fix.splice lines) rest

/-- **The length of a text, while fixes are carried out.** -/
theorem length_foldl_splice {source : List (List Char)} {fixes : List Fix}
    (haddresses : ∀ fix ∈ fixes, fix.addresses source.length = true)
    (horder : fixes.Pairwise fun later earlier =>
      earlier.range.stop.upTo later.range.start = true)
    {lines : List (List Char)} (hlines : ∀ line ∈ lines, '\n' ∉ line)
    (hready : ∀ fix ∈ fixes, Fix.Ready source lines fix) :
    (joinWith '\n' (fixes.foldl (fun lines fix => fix.splice lines) lines)).length +
        (fixes.map (Fix.covered source)).sum + overrun source lines fixes
      = (joinWith '\n' lines).length + (fixes.map fun fix => fix.replacement.length).sum := by
  induction fixes generalizing lines with
  | nil => simp [overrun]
  | cons fix rest ih =>
    rw [List.forall_mem_cons] at haddresses hready
    rw [List.pairwise_cons] at horder
    have hnext := ih haddresses.2 horder.2 (Fix.plain_splice hlines) fun other hother =>
      hready.1.next hlines (haddresses.2 other hother) (horder.1 other hother)
    have hstep := Fix.length_splice hready.1 haddresses.1
    have hcovered := hready.1.covered_le haddresses.1
    rw [List.foldl_cons, List.map_cons, List.sum_cons, List.map_cons, List.sum_cons, overrun]
    omega

/-- Separate fixes cover what they cover in the source. -/
theorem overrun_eq_zero {source : List (List Char)} (hsource : ∀ line ∈ source, '\n' ∉ line)
    {fixes : List Fix} (haddresses : ∀ fix ∈ fixes, fix.addresses source.length = true)
    (hseparate : fixes.Pairwise (Fix.Separate source)) {lines : List (List Char)}
    (hsame : ∀ fix ∈ fixes, SameUpTo source lines fix.range.start ∧
      SameUpTo source lines fix.range.stop) :
    overrun source lines fixes = 0 := by
  induction fixes generalizing lines with
  | nil => rfl
  | cons fix rest ih =>
    rw [List.forall_mem_cons] at haddresses hsame
    rw [List.pairwise_cons] at hseparate
    obtain ⟨hstart, hstop⟩ := hsame.1
    have hcovered : fix.covered lines = fix.covered source := by
      rw [Fix.covered, Fix.covered, hstart.offset_eq, hstop.offset_eq]
    have hrest := ih haddresses.2 hseparate.2 fun other hother =>
      (hseparate.1 other hother).sameUpTo hsource (haddresses.2 other hother) hstart
    rw [overrun, hcovered, hrest, Nat.sub_self]

/-- **The length of the text that a batch gives.** To the length of the source comes that of the
    replacements, and what the ranges of the fixes cover in the source is taken away, together with
    what the fixes cover of each other's text. If no fix stops past the end of a line on which
    another starts, this is nothing, and the text is the source with the ranges replaced. -/
theorem length_of_batch {fixes : List Fix} {source result : String}
    (h : applyFixes fixes source = .ok result) :
    let lines := linesOf source
    let lost := overrun lines lines (carryOutOrder fixes)
    result.length + (fixes.map (Fix.covered lines)).sum + lost
      = source.length + (fixes.map fun fix => fix.replacement.length).sum ∧
    (StopInside fixes lines → lost = 0 ∧ result = patch fixes source) := by
  intro lines lost
  obtain ⟨hnone, haddresses, rfl⟩ := applyFixes_eq_ok h
  have hperm : (carryOutOrder fixes).Perm fixes := perm_sortBy _ fixes
  have hordered : ∀ fix ∈ carryOutOrder fixes, fix.addresses lines.length = true :=
    fun fix hfix => haddresses fix (hperm.mem_iff.1 hfix)
  have horder := pairwise_carryOutOrder hnone haddresses
  have hlines : ∀ line ∈ lines, '\n' ∉ line := fun line => not_mem_of_mem_cutAt
  constructor
  · have hsource : joinWith '\n' lines = source.toList := joinWith_cutAt _ _
    have hlength := length_foldl_splice hordered horder hlines fun fix hfix =>
      .refl (hordered fix hfix)
    rw [hsource, String.length_toList, (hperm.map _).sum_nat, (hperm.map _).sum_nat] at hlength
    rwa [ofLines, String.length_ofList, spliceAll]
  · intro hinside
    have hseparate : (carryOutOrder fixes).Pairwise (Fix.Separate lines) :=
      (horder.and hinside).imp fun h => ⟨h.1, h.2⟩
    refine ⟨overrun_eq_zero hlines hordered hseparate fun fix hfix => ?_,
      ofLines_spliceAll hnone haddresses hinside⟩
    have hrows := (Fix.rows_of_addresses (hordered fix hfix)).2
    exact ⟨.refl hrows.1, .refl hrows.2⟩

/-- A column past the end of a line does no harm where no other fix starts on the line: the first
    line loses one character here, and the second gets one more. -/
theorem length_of_batch_past_end :
    let fixes := [Fix.removal (.of 1 2 1 99), Fix.insertion ⟨2, 9⟩ "!"]
    applyFixes fixes "ab\ncd" = .ok "a\ncd!" ∧
    "a\ncd!".length + (fixes.map (Fix.covered (linesOf "ab\ncd"))).sum
      = "ab\ncd".length + (fixes.map fun fix => fix.replacement.length).sum ∧
    "a\ncd!" = patch fixes "ab\ncd" := by
  intro fixes
  have happlied : applyFixes fixes "ab\ncd" = .ok "a\ncd!" := by rfl
  obtain ⟨hlength, hinside⟩ := length_of_batch happlied
  have hinside := hinside (by unfold StopInside; decide)
  rw [hinside.1, Nat.add_zero] at hlength
  exact ⟨happlied, hlength, hinside.2⟩

/-- The text that one fix inserts behind a line is lost, when another fix removes the line up to a
    column past its end. -/
theorem batch_loses_insertion :
    let fixes := [Fix.removal (.of 1 1 1 10), Fix.insertion ⟨1, 10⟩ "XYZ"]
    applyFixes fixes "ab" = .ok "" ∧
    "".length + (fixes.map (Fix.covered (linesOf "ab"))).sum
      ≠ "ab".length + (fixes.map fun fix => fix.replacement.length).sum ∧
    patch fixes "ab" = "XYZ" := by
  refine ⟨rfl, by decide, rfl⟩

end ProjectReview
