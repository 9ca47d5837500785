import ProjectReview.Fault
import ProjectReview.Proofs.Batches

set_option autoImplicit false

/-! # Batches in another order

The order in which the fixes of a batch are listed is a matter of taste, but for insertions at one
position, whose texts follow each other as the list has them. `Reordered` is a rearrangement that
leaves those as they are.

Whether two fixes overlap and whether one is outside of the source are questions about the fixes and
not about their places, so a reordered batch is refused for the same kind of reason
(`kind_applyFixes`). Where a batch comes to be carried out, fixes with the same range can only be
insertions: the same range twice would overlap itself (`filter_range_eq`). These keep their order,
so the stable sort gives both batches one order in which to be carried out. The main result is
`reordered_batches_agree`. -/

namespace ProjectReview

/-- The batches hold the same fixes, and those that put text in at one position stand in the same
    order among themselves. -/
structure Reordered (fixes other : List Fix) : Prop where
  perm : fixes.Perm other
  insertions : ∀ fix ∈ fixes, fix.range.isEmpty = true →
    fixes.filter (fun same => decide (same.range = fix.range))
      = other.filter fun same => decide (same.range = fix.range)

/-! ## What the refusal of a batch depends on -/

open Classical in
/-- How a batch ends, but for which of its fixes are to blame. -/
theorem kind_applyFixes (fixes : List Fix) (source : String) :
    (applyFixes fixes source).mapError (fun fault => (Fault.fix fault).label)
      = if ¬ Apart fixes then .error "CollisionDetected"
        else if ∃ fix ∈ fixes, fix.Outside (linesOf source).length then .error "FixOutOfRange"
        else if spliced fixes source = source then .error "ResultUnchanged"
        else .ok (spliced fixes source) := by
  have hends : BatchEnds fixes source (applyFixes fixes source) := applyFixes_eq_iff.1 rfl
  generalize applyFixes fixes source = outcome at hends
  cases hends with
  | collision hoverlap =>
    rw [if_pos hoverlap.not_apart]
    rfl
  | outOfRange hapart houtside =>
    obtain ⟨hfix, before, after, hsplit, -⟩ := houtside
    rw [if_neg (not_not.2 hapart), if_pos ⟨_, by rw [hsplit]; simp, hfix⟩]
    rfl
  | unchanged hapart hinside hsame =>
    rw [if_neg (not_not.2 hapart), if_neg (by simpa using hinside), if_pos hsame]
    rfl
  | applied hapart hinside hdifferent =>
    rw [if_neg (not_not.2 hapart), if_neg (by simpa using hinside), if_neg hdifferent]
    rfl

/-! ## The order in which fixes are carried out -/

/-- A range that is not empty and not reversed overlaps itself. -/
theorem Range.overlaps_self {range : Range} (hforward : range.start.upTo range.stop = true)
    (hne : range.isEmpty = false) : range.overlaps range = true := by
  obtain ⟨⟨row, column⟩, ⟨row', column'⟩⟩ := range
  simp only [Range.isEmpty, beq_eq_false_iff_ne, ne_eq, Position.mk.injEq] at hne
  rw [Position.upTo_iff] at hforward
  rw [Range.overlaps, Bool.and_self, Position.before_iff]
  simp only at hforward ⊢
  omega

/-- Fixes are level in the order in which they are carried out when they have the same range. -/
theorem Fix.level_iff (a b : Fix) :
    (b.range.upTo a.range && a.range.upTo b.range) = decide (b.range = a.range) := by
  obtain ⟨⟨⟨a1, a2⟩, ⟨a3, a4⟩⟩, -⟩ := a
  obtain ⟨⟨⟨b1, b2⟩, ⟨b3, b4⟩⟩, -⟩ := b
  rw [Bool.eq_iff_iff]
  simp only [Bool.and_eq_true, Range.upTo_iff, decide_eq_true_eq, Range.mk.injEq,
    Position.mk.injEq]
  omega

namespace Reordered

variable {fixes other : List Fix}

theorem apart_iff (h : Reordered fixes other) : Apart fixes ↔ Apart other :=
  h.perm.pairwise_iff fun {a b} hoverlap => by rwa [Range.overlaps_comm]

theorem outside_iff (h : Reordered fixes other) (lineCount : Nat) :
    (∃ fix ∈ fixes, fix.Outside lineCount) ↔ ∃ fix ∈ other, fix.Outside lineCount := by
  simp only [h.perm.mem_iff]

/-- Of fixes that do not overlap, those with one range stand in the same order in both batches: there
    is only one, or they are insertions. -/
theorem filter_range_eq (h : Reordered fixes other) (hapart : Apart fixes)
    (hforward : ∀ fix ∈ fixes, fix.range.start.upTo fix.range.stop = true) (range : Range) :
    fixes.filter (fun fix => decide (fix.range = range))
      = other.filter fun fix => decide (fix.range = range) := by
  have hperm := h.perm.filter fun fix => decide (fix.range = range)
  have hrange : ∀ fix ∈ fixes.filter fun fix => decide (fix.range = range),
      fix ∈ fixes ∧ fix.range = range := by simp
  have hfound := hapart.filter fun fix => decide (fix.range = range)
  cases hfixes : fixes.filter fun fix => decide (fix.range = range) with
  | nil =>
    rw [hfixes] at hperm
    exact hperm.nil_eq
  | cons first rest =>
    rw [hfixes] at hperm hrange hfound
    obtain ⟨hfirst, rfl⟩ := hrange first List.mem_cons_self
    by_cases hempty : first.range.isEmpty = true
    · rw [← hfixes]
      exact h.insertions first hfirst hempty
    · have hself := Range.overlaps_self (hforward first hfirst) (Bool.eq_false_iff.2 hempty)
      cases rest with
      | nil => exact (List.perm_singleton.1 hperm.symm).symm
      | cons second rest =>
        have hsecond := (hrange second (by simp)).2
        have hnone := (List.pairwise_cons.1 hfound).1 second List.mem_cons_self
        rw [hsecond, hself] at hnone
        cases hnone

/-- **Reordered batches are carried out in one and the same order.** -/
theorem carryOutOrder_eq (h : Reordered fixes other) (hapart : Apart fixes)
    (hforward : ∀ fix ∈ fixes, fix.range.start.upTo fix.range.stop = true) :
    carryOutOrder fixes = carryOutOrder other := by
  apply sortBy_congr h.perm
  intro a
  simp only [Fix.level_iff]
  exact h.filter_range_eq hapart hforward a.range

theorem spliced_eq (h : Reordered fixes other) (source : String) (hapart : Apart fixes)
    (hinside : ¬ ∃ fix ∈ fixes, fix.Outside (linesOf source).length) :
    spliced fixes source = spliced other source := by
  have hforward : ∀ fix ∈ fixes, fix.range.start.upTo fix.range.stop = true := by
    intro fix hfix
    have haddresses := (fix.addresses_iff_not_outside (linesOf source).length).2
      fun houtside => hinside ⟨fix, hfix, houtside⟩
    exact ((fix.addresses_iff _).1 haddresses).2.2.2.2
  unfold spliced spliceAll
  rw [h.carryOutOrder_eq hapart hforward]

end Reordered

/-- **The order in which a batch is listed does not matter.** Batches with the same fixes, in which
    the insertions at each position stand in the same order, give the same text on every source or
    are refused with the same kind of fault, whatever the rows and columns of the fixes are. -/
theorem reordered_batches_agree (fixes other : List Fix) (h : Reordered fixes other)
    (source : String) :
    (applyFixes fixes source).mapError (fun fault => (Fault.fix fault).label)
      = (applyFixes other source).mapError fun fault => (Fault.fix fault).label := by
  rw [kind_applyFixes fixes, kind_applyFixes other]
  by_cases hapart : Apart fixes
  · have hother := h.apart_iff.1 hapart
    by_cases houtside : ∃ fix ∈ fixes, fix.Outside (linesOf source).length
    · rw [if_neg (not_not.2 hapart), if_neg (not_not.2 hother), if_pos houtside,
        if_pos ((h.outside_iff _).1 houtside)]
    · rw [if_neg (not_not.2 hapart), if_neg (not_not.2 hother), if_neg houtside,
        if_neg fun hfix => houtside ((h.outside_iff _).2 hfix), h.spliced_eq source hapart houtside]
  · rw [if_pos hapart, if_pos fun hother => hapart (h.apart_iff.2 hother)]

/-- Two insertions at the start of a replacement, and a removal on another line: listed in another
    order, but for the insertions among themselves, the batch gives the same text. -/
theorem reordered_batches_agree_insertions :
    let first := Fix.insertion ⟨1, 2⟩ "x"
    let second := Fix.insertion ⟨1, 2⟩ "y"
    let replacement : Fix := ⟨.of 1 2 1 3, "B\nB"⟩
    let removal := Fix.removal (.of 2 1 2 2)
    let fixes := [removal, first, replacement, second]
    let other := [first, second, replacement, removal]
    Reordered fixes other ∧ applyFixes fixes "abc\nde" = .ok "ayxB\nBc\ne" ∧
      (applyFixes other "abc\nde").mapError (fun fault => (Fault.fix fault).label)
        = .ok "ayxB\nBc\ne" := by
  intro first second replacement removal fixes other
  have hreordered : Reordered fixes other := ⟨by decide, by decide⟩
  have happly : applyFixes fixes "abc\nde" = .ok "ayxB\nBc\ne" := by decide +kernel
  refine ⟨hreordered, happly, ?_⟩
  rw [← reordered_batches_agree fixes other hreordered, happly]
  rfl

/-- Insertions at one position are not free to change places. -/
example : applyFixes [.insertion ⟨1, 2⟩ "x", .insertion ⟨1, 2⟩ "y"] "ab"
    ≠ applyFixes [.insertion ⟨1, 2⟩ "y", .insertion ⟨1, 2⟩ "x"] "ab" := by
  decide +kernel

end ProjectReview
