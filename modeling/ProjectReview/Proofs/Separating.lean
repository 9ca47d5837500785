import ProjectReview.Proofs.Patching
import ProjectReview.Proofs.Reordering

set_option autoImplicit false

/-! # Fixes one after the other

A collision is looked for among all pairs of a batch, in whatever order the batch is listed. What
carrying it out relies on is said of neighbours: in ascending order of their ranges, each fix stops
where the next one starts, or in front of it (`Successive`). For ranges that are not reversed these
come to the same.

Of two fixes in ascending order, the first must stop where the other starts or in front of it, or
they overlap (`Range.overlaps_eq_false_iff_of_upTo`). Insertions at an end of a range, or two at one
place, are no exception, since ranges that start together are ordered by their stops. So a batch has
no collision just when every pair is as neighbours have to be, and what holds of neighbours holds of
every pair (`pairwise_of_successive`): a fix that is not reversed does not lead back from its stop to
a place in front of its start.

Whether two ranges overlap is a matter of their ends alone. They share a position just when they
overlap and both cover something (`Range.exists_contains_iff`); an insertion in the middle of a range
overlaps it and shares nothing with it. The main result is `collision_free_iff_successive`. -/

namespace ProjectReview

/-! ## The order of positions -/

namespace Position

theorem upTo_refl (p : Position) : p.upTo p = true :=
  (upTo_iff p p).2 (.inr ⟨rfl, le_rfl⟩)

theorem upTo_total (p q : Position) : p.upTo q = true ∨ q.upTo p = true := by
  rw [upTo_iff, upTo_iff]
  omega

theorem upTo_trans {p q r : Position} (hpq : p.upTo q = true) (hqr : q.upTo r = true) :
    p.upTo r = true := by
  rw [upTo_iff] at hpq hqr ⊢
  omega

theorem before_of_upTo_of_before {p q r : Position} (hpq : p.upTo q = true)
    (hqr : q.before r = true) : p.before r = true := by
  rw [upTo_iff] at hpq
  rw [before_iff] at hqr ⊢
  omega

end Position

/-! ## Positions that ranges share -/

namespace Range

theorem overlaps_iff (a b : Range) :
    a.overlaps b = true ↔ b.start.before a.stop = true ∧ a.start.before b.stop = true := by
  rw [overlaps, Bool.and_eq_true]

theorem contains_iff (r : Range) (p : Position) :
    r.contains p = true ↔ r.start.upTo p = true ∧ p.before r.stop = true := by
  rw [contains, Bool.and_eq_true]

/-- A range that is not empty and not reversed covers something: it stops behind its start. -/
theorem start_before_stop {r : Range} (hforward : r.start.upTo r.stop = true)
    (hne : r.isEmpty = false) : r.start.before r.stop = true :=
  ((r.overlaps_iff r).1 (overlaps_self hforward hne)).1

/-- A range that covers something shares its start with a range in which it starts. -/
theorem contains_start {a b : Range} (hstart : a.start.upTo b.start = true)
    (hstop : b.start.before a.stop = true) (hb : b.start.before b.stop = true) :
    a.contains b.start = true ∧ b.contains b.start = true :=
  ⟨(a.contains_iff _).2 ⟨hstart, hstop⟩, (b.contains_iff _).2 ⟨b.start.upTo_refl, hb⟩⟩

/-- **Ranges share a position just when they overlap and both cover something.** The position is the
    start of the one that starts later. -/
theorem exists_contains_iff (a b : Range) :
    (∃ p, a.contains p = true ∧ b.contains p = true) ↔
      a.overlaps b = true ∧ a.start.before a.stop = true ∧ b.start.before b.stop = true := by
  rw [overlaps_iff]
  constructor
  · rintro ⟨p, ha, hb⟩
    obtain ⟨haStart, haStop⟩ := (a.contains_iff p).1 ha
    obtain ⟨hbStart, hbStop⟩ := (b.contains_iff p).1 hb
    exact ⟨⟨Position.before_of_upTo_of_before hbStart haStop,
      Position.before_of_upTo_of_before haStart hbStop⟩,
      Position.before_of_upTo_of_before haStart haStop,
      Position.before_of_upTo_of_before hbStart hbStop⟩
  · rintro ⟨⟨hba, hab⟩, ha, hb⟩
    rcases a.start.upTo_total b.start with hstart | hstart
    · exact ⟨b.start, contains_start hstart hba hb⟩
    · exact ⟨a.start, (contains_start hstart hab ha).symm⟩

end Range

/-! ## Neighbours and pairs -/

/-- Each fix of the list stops where the next one starts, or in front of it. -/
def Successive (fixes : List Fix) : Prop :=
  fixes.IsChain fun fix next => fix.range.stop.upTo next.range.start = true

instance (fixes : List Fix) : Decidable (Successive fixes) :=
  inferInstanceAs (Decidable (fixes.IsChain _))

/-- **Of successive fixes that are not reversed, each stops in front of all that follow.** From one
    fix to a later one the way leads through the next, from its start on to its stop. -/
theorem pairwise_of_successive {fixes : List Fix}
    (hforward : ∀ fix ∈ fixes, fix.range.start.upTo fix.range.stop = true)
    (h : Successive fixes) :
    fixes.Pairwise fun fix later => fix.range.stop.upTo later.range.start = true := by
  induction fixes with
  | nil => exact List.Pairwise.nil
  | cons fix rest ih =>
    cases rest with
    | nil => exact List.pairwise_singleton _ fix
    | cons next rest =>
      rw [List.forall_mem_cons] at hforward
      obtain ⟨hnext, hsuccessive⟩ := List.isChain_cons_cons.1 h
      have hrest := ih hforward.2 hsuccessive
      refine List.pairwise_cons.2 ⟨fun later hlater => ?_, hrest⟩
      rcases List.mem_cons.1 hlater with rfl | hlater
      · exact hnext
      · have hover : fix.range.stop.upTo next.range.stop = true :=
          Position.upTo_trans hnext (hforward.2 next List.mem_cons_self)
        exact Position.upTo_trans hover ((List.pairwise_cons.1 hrest).1 later hlater)

theorem successive_iff_pairwise {fixes : List Fix}
    (hforward : ∀ fix ∈ fixes, fix.range.start.upTo fix.range.stop = true) :
    Successive fixes ↔
      fixes.Pairwise fun fix later => fix.range.stop.upTo later.range.start = true :=
  ⟨pairwise_of_successive hforward, List.Pairwise.isChain⟩

/-- **A batch has no collision just when its fixes come one after the other.** For every batch of
    fixes that are not reversed, the order in which it is carried out, read backwards, is ascending,
    and no collision is found just when in that order each fix stops where the next one starts, or in
    front of it. And ranges that are not reversed and not empty overlap just when there is a position
    that both contain. -/
theorem collision_free_iff_successive :
    (∀ fixes : List Fix, (∀ fix ∈ fixes, fix.range.start.upTo fix.range.stop = true) →
      let ascending := (carryOutOrder fixes).reverse
      StableSorted (fun a b => a.range.upTo b.range) fixes.reverse ascending ∧
      (findCollision fixes = none ↔ Successive ascending)) ∧
    ∀ a b : Range, a.start.upTo a.stop = true → b.start.upTo b.stop = true →
      a.isEmpty = false → b.isEmpty = false →
      (a.overlaps b = true ↔ ∃ p, a.contains p = true ∧ b.contains p = true) := by
  constructor
  · intro fixes hforward ascending
    have hascending : ∀ fix ∈ ascending, fix.range.start.upTo fix.range.stop = true := by
      intro fix hfix
      exact hforward fix ((mem_sortBy _ fix fixes).1 (List.mem_reverse.1 hfix))
    refine ⟨stableSorted_carryOutOrder fixes, ?_⟩
    rw [findCollision_eq_none_iff_carryOutOrder hforward, successive_iff_pairwise hascending,
      List.pairwise_reverse]
  · intro a b ha hb hane hbne
    rw [Range.exists_contains_iff]
    constructor
    · intro hoverlap
      exact ⟨hoverlap, Range.start_before_stop ha hane, Range.start_before_stop hb hbne⟩
    · rintro ⟨hoverlap, -, -⟩
      exact hoverlap

/-- Insertions at both ends of a replacement, two of them at one place, and a removal of the next row
    come one after the other; with an insertion in the middle of the replacement the batch collides.
    Two ranges of which neither holds the other share what lies between the start of the one and the
    stop of the other. -/
theorem collision_free_iff_successive_insertions :
    let replacement : Fix := ⟨.of 1 2 1 5, "x\ny"⟩
    let fixes := [Fix.removal (.of 2 1 3 1), Fix.insertion ⟨1, 5⟩ "c", replacement,
      Fix.insertion ⟨1, 2⟩ "a", Fix.insertion ⟨1, 5⟩ "d"]
    let colliding := [Fix.insertion ⟨1, 3⟩ "b", replacement]
    let left := Range.of 1 1 2 5
    let right := Range.of 2 3 2 8
    (∀ fix ∈ fixes, fix.range.start.upTo fix.range.stop = true) ∧
    (∀ fix ∈ colliding, fix.range.start.upTo fix.range.stop = true) ∧
    findCollision fixes = none ∧ Successive (carryOutOrder fixes).reverse ∧
    ¬ Successive (carryOutOrder colliding).reverse ∧ findCollision colliding ≠ none ∧
    left.isEmpty = false ∧ right.isEmpty = false ∧
    left.overlaps right = true ∧ ∃ p, left.contains p = true ∧ right.contains p = true := by
  intro replacement fixes colliding left right
  obtain ⟨hbatch, hranges⟩ := collision_free_iff_successive
  have hfixes : ∀ fix ∈ fixes, fix.range.start.upTo fix.range.stop = true := by decide
  have hcolliding : ∀ fix ∈ colliding, fix.range.start.upTo fix.range.stop = true := by decide
  have hnone : findCollision fixes = none := by decide
  have hbroken : ¬ Successive (carryOutOrder colliding).reverse := by decide
  exact ⟨hfixes, hcolliding, hnone, (hbatch fixes hfixes).2.1 hnone, hbroken,
    fun h => hbroken ((hbatch colliding hcolliding).2.1 h), rfl, rfl, rfl,
    (hranges left right rfl rfl rfl rfl).1 rfl⟩

end ProjectReview
