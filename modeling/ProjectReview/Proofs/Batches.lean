import ProjectReview.Proofs.Splicing

set_option autoImplicit false

/-! # How a batch of fixes ends

A batch is refused for the first pair of its fixes that overlap (`FirstOverlap`), else for its first
fix that is outside of the source (`FirstOutside`), else if carrying it out gives back the source;
otherwise it gives the text with its fixes carried out. `BatchEnds` says this without following the
checks, and `applyFixes_eq_iff` says that it is what happens.

The fixes are checked against the source alone, but carried out on lines that change with every one
of them. What keeps the rows of the fixes to come inside of the lines is that these still start like
the source up to the place where the last fix started (`StartsLike.splice`), and that fixes which
do not overlap stop in front of that place. So every fix that is carried out finds its rows
(`Ready`, `ready_of_split`), also where its columns are past the ends of lines. -/

namespace ProjectReview

/-! ## The first overlapping pair -/

/-- No two fixes of the batch overlap. -/
def Apart (fixes : List Fix) : Prop :=
  fixes.Pairwise fun a b => a.range.overlaps b.range = false

/-- Two fixes that overlap, each with its place in the batch, and of all such pairs the first: by the
    place of the one, then by that of the other. -/
structure FirstOverlap (fixes : List Fix) (first second : Nat × Fix) : Prop where
  ordered : first.1 < second.1
  firstAt : fixes[first.1]? = some first.2
  secondAt : fixes[second.1]? = some second.2
  overlap : first.2.range.overlaps second.2.range = true
  least : ∀ (i j : Nat) (a b : Fix), i < j → fixes[i]? = some a → fixes[j]? = some b →
    a.range.overlaps b.range = true → first.1 < i ∨ first.1 = i ∧ second.1 ≤ j

/-- The fixes of a batch with their places, counted from a number on. -/
def numberedFrom (start : Nat) (fixes : List Fix) : List (Nat × Fix) :=
  (fixes.zipIdx start).map fun numbered => (numbered.2, numbered.1)

theorem numberedFrom_cons (start : Nat) (fix : Fix) (rest : List Fix) :
    numberedFrom start (fix :: rest) = (start, fix) :: numberedFrom (start + 1) rest := rfl

theorem getElem?_numberedFrom (start i : Nat) (fixes : List Fix) :
    (numberedFrom start fixes)[i]? = fixes[i]?.map fun fix => (start + i, fix) := by
  rw [numberedFrom, List.getElem?_map, List.getElem?_zipIdx]
  cases fixes[i]? <;> rfl

/-- The first fix of numbered ones that overlaps a fix. -/
theorem firstOverlap_numberedFrom {start : Nat} {fix : Fix} {rest : List Fix} {other : Nat × Fix}
    (h : firstOverlap fix (numberedFrom start rest) = some other) :
    ∃ j, other.1 = start + j ∧ rest[j]? = some other.2 ∧
      fix.range.overlaps other.2.range = true ∧
      ∀ i b, rest[i]? = some b → fix.range.overlaps b.range = true → j ≤ i := by
  obtain ⟨hoverlap, j, hj, hother, hbefore⟩ := List.find?_eq_some_iff_getElem.1 h
  have hat : (numberedFrom start rest)[j]? = some other := by rw [← hother, List.getElem?_eq_getElem]
  rw [getElem?_numberedFrom] at hat
  obtain ⟨found, hfound, rfl⟩ := Option.map_eq_some_iff.1 hat
  refine ⟨j, rfl, hfound, hoverlap, fun i b hb hi => ?_⟩
  by_contra hlt
  have hi' : (numberedFrom start rest)[i]? = some (start + i, b) := by
    rw [getElem?_numberedFrom, hb, Option.map_some]
  have hnone := hbefore i (by omega)
  rw [List.getElem?_eq_some_iff] at hi'
  obtain ⟨_, hi'⟩ := hi'
  rw [hi', hi] at hnone
  cases hnone

theorem firstOverlap_eq_none {start : Nat} {fix : Fix} {rest : List Fix}
    (h : firstOverlap fix (numberedFrom start rest) = none) {i : Nat} {b : Fix}
    (hb : rest[i]? = some b) : fix.range.overlaps b.range = false := by
  have hmem : (start + i, b) ∈ numberedFrom start rest := by
    apply List.mem_of_getElem? (i := i)
    rw [getElem?_numberedFrom, hb, Option.map_some]
  exact Bool.eq_false_iff.2 (List.find?_eq_none.1 h _ hmem)

/-- A fix in front of a batch that overlaps none of it leaves the first pair of the batch first. -/
theorem FirstOverlap.cons {fix : Fix} {rest : List Fix} {i j : Nat} {a b : Fix}
    (h : FirstOverlap rest (i, a) (j, b))
    (hnone : ∀ (k : Nat) (c : Fix), rest[k]? = some c → fix.range.overlaps c.range = false) :
    FirstOverlap (fix :: rest) (i + 1, a) (j + 1, b) where
  ordered := Nat.succ_lt_succ h.ordered
  firstAt := h.firstAt
  secondAt := h.secondAt
  overlap := h.overlap
  least := by
    intro i' j' a' b' hlt ha hb hoverlap
    obtain ⟨j', rfl⟩ : ∃ k, j' = k + 1 := ⟨j' - 1, by omega⟩
    rw [List.getElem?_cons_succ] at hb
    cases i' with
    | zero =>
      obtain rfl : fix = a' := Option.some.inj ha
      rw [hnone j' b' hb] at hoverlap
      cases hoverlap
    | succ i' =>
      rw [List.getElem?_cons_succ] at ha
      have hleast := h.least i' j' a' b' (by omega) ha hb hoverlap
      simp only at hleast ⊢
      omega

/-- The search looks through the pairs in the order of their places. -/
theorem firstOverlap_of_collisionAmong {start : Nat} {fixes : List Fix} {first second : Nat × Fix}
    (h : collisionAmong (numberedFrom start fixes) = some (first, second)) :
    ∃ i j, first.1 = start + i ∧ second.1 = start + j ∧
      FirstOverlap fixes (i, first.2) (j, second.2) := by
  induction fixes generalizing start with
  | nil => cases h
  | cons fix rest ih =>
    rw [numberedFrom_cons, collisionAmong] at h
    split at h
    · next other hother =>
      obtain ⟨rfl, rfl⟩ := Prod.mk.inj (Option.some.inj h)
      obtain ⟨j, hj, hat, hoverlap, hleast⟩ := firstOverlap_numberedFrom hother
      refine ⟨0, j + 1, rfl, by omega, Nat.succ_pos j, rfl, hat, hoverlap, ?_⟩
      intro i' j' a b hlt ha hb hoverlap'
      obtain ⟨j', rfl⟩ : ∃ k, j' = k + 1 := ⟨j' - 1, by omega⟩
      rw [List.getElem?_cons_succ] at hb
      cases i' with
      | succ i' => exact .inl (Nat.succ_pos i')
      | zero =>
        obtain rfl : fix = a := Option.some.inj ha
        exact .inr ⟨rfl, Nat.succ_le_succ (hleast j' b hb hoverlap')⟩
    · next hnone =>
      obtain ⟨i, j, hi, hj, hfirst⟩ := ih h
      exact ⟨i + 1, j + 1, by omega, by omega, hfirst.cons fun k c => firstOverlap_eq_none hnone⟩

theorem FirstOverlap.unique {fixes : List Fix} {first second first' second' : Nat × Fix}
    (h : FirstOverlap fixes first second) (h' : FirstOverlap fixes first' second') :
    first = first' ∧ second = second' := by
  have hle := h.least _ _ _ _ h'.ordered h'.firstAt h'.secondAt h'.overlap
  have hge := h'.least _ _ _ _ h.ordered h.firstAt h.secondAt h.overlap
  have hfirst : first.1 = first'.1 := by omega
  have hsecond : second.1 = second'.1 := by omega
  have hfirstAt := h.firstAt
  have hsecondAt := h.secondAt
  rw [hfirst, h'.firstAt] at hfirstAt
  rw [hsecond, h'.secondAt] at hsecondAt
  exact ⟨Prod.ext hfirst (Option.some.inj hfirstAt).symm,
    Prod.ext hsecond (Option.some.inj hsecondAt).symm⟩

theorem FirstOverlap.not_apart {fixes : List Fix} {first second : Nat × Fix}
    (h : FirstOverlap fixes first second) : ¬ Apart fixes := by
  intro hapart
  obtain ⟨hi, hfirst⟩ := List.getElem?_eq_some_iff.1 h.firstAt
  obtain ⟨hj, hsecond⟩ := List.getElem?_eq_some_iff.1 h.secondAt
  have hnone := List.pairwise_iff_getElem.1 hapart _ _ hi hj h.ordered
  rw [hfirst, hsecond, h.overlap] at hnone
  cases hnone

/-- **A collision is the first overlapping pair.** -/
theorem findCollision_eq_some_iff {fixes : List Fix} {first second : Nat × Fix} :
    findCollision fixes = some (first, second) ↔ FirstOverlap fixes first second := by
  have hfound {first second : Nat × Fix} (h : findCollision fixes = some (first, second)) :
      FirstOverlap fixes first second := by
    have hamong : collisionAmong (numberedFrom 0 fixes) = some (first, second) := h
    obtain ⟨i, j, hi, hj, hfirst⟩ := firstOverlap_of_collisionAmong hamong
    rw [Nat.zero_add] at hi hj
    rw [← hi, ← hj] at hfirst
    exact hfirst
  refine ⟨hfound, fun h => ?_⟩
  cases hcollision : findCollision fixes with
  | none => exact absurd ((findCollision_eq_none_iff fixes).1 hcollision) h.not_apart
  | some pair =>
    obtain ⟨rfl, rfl⟩ := (hfound hcollision).unique h
    rfl

/-! ## The four ends -/

/-- The range of the fix cannot be found in a source of that many lines: a row is missing, a column
    is below one, or the range stops before it starts. -/
def Fix.Outside (lineCount : Nat) (fix : Fix) : Prop :=
  fix.range.start.row < 1 ∨ (lineCount : Int) < fix.range.stop.row ∨ fix.range.start.column < 1 ∨
    fix.range.stop.column < 1 ∨ fix.range.stop.before fix.range.start = true

theorem Fix.addresses_eq_false_iff (fix : Fix) (lineCount : Nat) :
    fix.addresses lineCount = false ↔ fix.Outside lineCount := by
  rw [← Bool.not_eq_true, Fix.addresses_iff, Position.upTo_iff, Fix.Outside, Position.before_iff]
  omega

theorem Fix.addresses_iff_not_outside (fix : Fix) (lineCount : Nat) :
    fix.addresses lineCount = true ↔ ¬ fix.Outside lineCount := by
  rw [← fix.addresses_eq_false_iff, Bool.not_eq_false]

/-- The first fix of the batch, as it was supplied, that is outside of the source. -/
def FirstOutside (fixes : List Fix) (lineCount : Nat) (fix : Fix) : Prop :=
  fix.Outside lineCount ∧ ∃ before after, fixes = before ++ fix :: after ∧
    ∀ other ∈ before, ¬ other.Outside lineCount

theorem find?_addresses_eq_some_iff {fixes : List Fix} {lineCount : Nat} {fix : Fix} :
    (fixes.find? fun fix => !fix.addresses lineCount) = some fix ↔
      FirstOutside fixes lineCount fix := by
  rw [List.find?_eq_some_iff_append, FirstOutside]
  simp only [Bool.not_eq_true', Bool.not_not, Fix.addresses_eq_false_iff,
    Fix.addresses_iff_not_outside]

theorem find?_addresses_eq_none_iff {fixes : List Fix} {lineCount : Nat} :
    (fixes.find? fun fix => !fix.addresses lineCount) = none ↔
      ∀ fix ∈ fixes, ¬ fix.Outside lineCount := by
  rw [List.find?_eq_none]
  simp only [Bool.not_eq_true', Bool.not_eq_false, Fix.addresses_iff_not_outside]

/-- The text of a source with the fixes of a batch carried out on its lines. -/
def spliced (fixes : List Fix) (source : String) : String :=
  ofLines (spliceAll fixes (linesOf source))

/-- How a batch of fixes ends on a source. -/
inductive BatchEnds (fixes : List Fix) (source : String) : Except FixFault String → Prop
  | collision {first second : Nat × Fix} (overlap : FirstOverlap fixes first second) :
      BatchEnds fixes source (.error (.collision first.2 second.2))
  | outOfRange {fix : Fix} (apart : Apart fixes)
      (outside : FirstOutside fixes (linesOf source).length fix) :
      BatchEnds fixes source (.error (.outOfRange fix (linesOf source).length))
  | unchanged (apart : Apart fixes)
      (inside : ∀ fix ∈ fixes, ¬ fix.Outside (linesOf source).length)
      (same : spliced fixes source = source) : BatchEnds fixes source (.error .unchanged)
  | applied (apart : Apart fixes)
      (inside : ∀ fix ∈ fixes, ¬ fix.Outside (linesOf source).length)
      (different : spliced fixes source ≠ source) :
      BatchEnds fixes source (.ok (spliced fixes source))

/-- **A batch ends in the one way that is due.** -/
theorem applyFixes_eq_iff {fixes : List Fix} {source : String} {outcome : Except FixFault String} :
    applyFixes fixes source = outcome ↔ BatchEnds fixes source outcome := by
  have hends : BatchEnds fixes source (applyFixes fixes source) := by
    rw [applyFixes]
    split
    · next first second hsome => exact .collision (findCollision_eq_some_iff.1 hsome)
    · next hnone =>
      have hapart := (findCollision_eq_none_iff fixes).1 hnone
      dsimp only
      split
      · next fix hfind => exact .outOfRange hapart (find?_addresses_eq_some_iff.1 hfind)
      · next hfind =>
        have hinside := find?_addresses_eq_none_iff.1 hfind
        split
        · next hsame => exact .unchanged hapart hinside hsame
        · next hdifferent => exact .applied hapart hinside hdifferent
  refine ⟨fun h => h ▸ hends, fun h => ?_⟩
  -- The conditions of the four ends exclude each other.
  rw [applyFixes]
  cases h with
  | collision overlap => rw [findCollision_eq_some_iff.2 overlap]
  | outOfRange apart outside =>
    rw [(findCollision_eq_none_iff fixes).2 apart]
    simp only [find?_addresses_eq_some_iff.2 outside]
  | unchanged apart inside same =>
    rw [(findCollision_eq_none_iff fixes).2 apart]
    simp only [find?_addresses_eq_none_iff.2 inside]
    exact if_pos same
  | applied apart inside different =>
    rw [(findCollision_eq_none_iff fixes).2 apart]
    simp only [find?_addresses_eq_none_iff.2 inside]
    exact if_neg different

/-! ## Lines that start like the source -/

/-- The lines are those of the source above a position, and the line of the position starts with
    what the source has in front of it. -/
structure StartsLike (source lines : List (List Char)) (p : Position) : Prop where
  row : p.rowIndex < lines.length
  above : lines.take p.rowIndex = source.take p.rowIndex
  line : (lineAt source p.rowIndex).take p.columnIndex <+: lineAt lines p.rowIndex

theorem StartsLike.refl {source : List (List Char)} {p : Position} (h : p.rowIndex < source.length) :
    StartsLike source source p :=
  ⟨h, rfl, List.take_prefix _ _⟩

/-- Carrying a fix out leaves no line feed inside of a line. -/
theorem Fix.plain_splice {fix : Fix} {lines : List (List Char)}
    (h : ∀ line ∈ lines, '\n' ∉ line) : ∀ line ∈ fix.splice lines, '\n' ∉ line := by
  intro line hline
  rw [splice_eq, List.mem_append, List.mem_append] at hline
  rcases hline with habove | hcut | hbelow
  · exact h line (List.mem_of_mem_take habove)
  · exact not_mem_of_mem_cutAt hcut
  · exact h line (List.mem_of_mem_drop hbelow)

/-- **After a fix the lines start like the source up to its start**, if they did so before. -/
theorem StartsLike.splice {source lines : List (List Char)} {fix : Fix} {p : Position}
    (hstart : StartsLike source lines fix.range.start) (hlines : ∀ line ∈ lines, '\n' ∉ line)
    (hrow : 1 ≤ p.row) (hp : p.upTo fix.range.start = true) :
    StartsLike source (fix.splice lines) p := by
  have hplain : '\n' ∉ fix.keptBefore lines := fun hmem =>
    not_mem_lineAt hlines _ (List.mem_of_mem_take hmem)
  obtain ⟨hlength, hline⟩ := fix.lineAt_splice hstart.row hplain
  have habove : (fix.splice lines).take fix.range.start.rowIndex
      = source.take fix.range.start.rowIndex := by
    rw [Fix.take_splice hstart.row le_rfl, hstart.above]
  rw [Position.upTo_iff] at hp
  rcases hp with hbefore | ⟨hsame, hcolumn⟩
  · have hrows : p.rowIndex < fix.range.start.rowIndex := by
      simp only [Position.rowIndex]
      omega
    refine ⟨hrows.trans hlength, ?_, ?_⟩
    · have htake := congrArg (List.take p.rowIndex) habove
      rwa [List.take_take, List.take_take, Nat.min_eq_left hrows.le] at htake
    · rw [lineAt_eq_of_take habove hrows]
      exact List.take_prefix _ _
  · have hrows : p.rowIndex = fix.range.start.rowIndex := by
      simp only [Position.rowIndex, hsame]
    have hcolumns : p.columnIndex ≤ fix.range.start.columnIndex := by
      simp only [Position.columnIndex]
      omega
    refine ⟨hrows ▸ hlength, hrows ▸ habove, ?_⟩
    -- The fix keeps the columns in front of it, and the position is one of them.
    rw [hrows]
    refine List.IsPrefix.trans ?_ hline
    refine List.prefix_take_iff.2 ⟨?_, (List.length_take_le _ _).trans hcolumns⟩
    exact (List.take_prefix_take_left hcolumns).trans hstart.line

namespace Fix

/-- The lines start like the source up to both ends of the fix. -/
structure Ready (source lines : List (List Char)) (fix : Fix) : Prop where
  start : StartsLike source lines fix.range.start
  stop : StartsLike source lines fix.range.stop

theorem Ready.refl {source : List (List Char)} {fix : Fix}
    (h : fix.addresses source.length = true) : Ready source source fix :=
  have hrows := (rows_of_addresses h).2
  ⟨.refl hrows.1, .refl hrows.2⟩

/-- After a fix the lines are ready for one that stops where it started, or in front. -/
theorem Ready.next {source lines : List (List Char)} {later earlier : Fix}
    (h : Ready source lines later) (hlines : ∀ line ∈ lines, '\n' ∉ line)
    (hearlier : earlier.addresses source.length = true)
    (hupTo : earlier.range.stop.upTo later.range.start = true) :
    Ready source (later.splice lines) earlier := by
  obtain ⟨hrow, -, -, -, hforward⟩ := (earlier.addresses_iff _).1 hearlier
  have hrows := (rows_of_addresses hearlier).1
  refine ⟨h.start.splice hlines hrow ?_, h.start.splice hlines (hrow.trans hrows) hupTo⟩
  rw [Position.upTo_iff] at hforward hupTo ⊢
  omega

/-- The rows that carrying the fix out looks at are rows of the lines. -/
structure RowsWithin (lines : List (List Char)) (fix : Fix) : Prop where
  start : 0 ≤ fix.range.start.row - 1 ∧ fix.range.start.row - 1 < lines.length
  stop : 0 ≤ fix.range.stop.row - 1 ∧ fix.range.stop.row - 1 < lines.length

theorem Ready.rowsWithin {source lines : List (List Char)} {fix : Fix}
    (h : Ready source lines fix) (haddresses : fix.addresses source.length = true) :
    RowsWithin lines fix := by
  obtain ⟨hrow, -, -, -, -⟩ := (fix.addresses_iff _).1 haddresses
  have hrows := (rows_of_addresses haddresses).1
  have hstart := h.start.row
  have hstop := h.stop.row
  simp only [Position.rowIndex] at hstart hstop
  exact ⟨⟨by omega, by omega⟩, ⟨by omega, by omega⟩⟩

end Fix

/-- **Carrying fixes out, every one finds the lines ready.** The invariant is that the lines are
    ready for all the fixes to come: each of these stops in front of the one carried out. -/
theorem ready_of_split {source : List (List Char)} {fixes : List Fix}
    (haddresses : ∀ fix ∈ fixes, fix.addresses source.length = true)
    (horder : fixes.Pairwise fun later earlier =>
      earlier.range.stop.upTo later.range.start = true)
    {lines : List (List Char)} (hlines : ∀ line ∈ lines, '\n' ∉ line)
    (hready : ∀ fix ∈ fixes, Fix.Ready source lines fix)
    {done rest : List Fix} {fix : Fix} (hsplit : fixes = done ++ fix :: rest) :
    Fix.Ready source (done.foldl (fun lines fix => fix.splice lines) lines) fix := by
  subst hsplit
  induction done generalizing lines with
  | nil => exact hready fix List.mem_cons_self
  | cons first done ih =>
    rw [List.cons_append, List.forall_mem_cons] at haddresses hready
    rw [List.cons_append, List.pairwise_cons] at horder
    rw [List.foldl_cons]
    refine ih (Fix.plain_splice hlines) haddresses.2 horder.2 fun other hother => ?_
    exact hready.1.next hlines (haddresses.2 other hother) (horder.1 other hother)

/-- **How a batch of fixes ends, for any rows and columns.** It ends in one of four ways: with the
    first overlapping pair, if two fixes overlap; else with the first fix that is outside of the
    source, if there is one; else as a batch that changes nothing, if carrying it out gives back the
    source; and else with the text in which it has been carried out. Whenever it comes to carrying
    fixes out, each of them finds its rows among the lines as they are when its turn comes. Trying a
    batch sets either the text or the refusal, as the batch ends. -/
theorem batch_ends_as_due (fixes : List Fix) (source : String) :
    (∀ outcome, applyFixes fixes source = outcome ↔ BatchEnds fixes source outcome) ∧
    (Apart fixes → (∀ fix ∈ fixes, ¬ fix.Outside (linesOf source).length) →
      ∀ done fix rest, carryOutOrder fixes = done ++ fix :: rest →
        fix.RowsWithin (done.foldl (fun lines fix => fix.splice lines) (linesOf source))) ∧
    let tried := tryApplyFixes fixes source
    (tried.source.isSome = tried.ok) ∧ (tried.error.isSome = !tried.ok) ∧
    (∀ text, tried.source = some text ↔ BatchEnds fixes source (.ok text)) ∧
    ∀ fault, tried.error = some fault ↔ BatchEnds fixes source (.error fault) := by
  refine ⟨fun outcome => applyFixes_eq_iff, fun hapart hinside done fix rest hsplit => ?_, ?_⟩
  · have haddresses : ∀ fix ∈ fixes, fix.addresses (linesOf source).length = true :=
      fun fix hfix => (fix.addresses_iff_not_outside _).2 (hinside fix hfix)
    have hordered : ∀ fix ∈ carryOutOrder fixes, fix.addresses (linesOf source).length = true :=
      fun fix hfix => haddresses fix ((mem_sortBy _ fix fixes).1 hfix)
    have horder := pairwise_carryOutOrder ((findCollision_eq_none_iff fixes).2 hapart) haddresses
    have hready := ready_of_split hordered horder (fun line => not_mem_of_mem_cutAt)
      (fun fix hfix => .refl (hordered fix hfix)) hsplit
    exact hready.rowsWithin (hordered fix (hsplit ▸ by simp))
  · simp only [← applyFixes_eq_iff, tryApplyFixes, FixOutcome.ok]
    cases applyFixes fixes source <;> simp

/-- The fix that is carried out first joins three lines into one, and the one that comes after it
    finds its row there. -/
theorem batch_ends_as_due_joined :
    let fixes := [Fix.removal (.of 1 1 1 2), Fix.removal (.of 1 3 3 2)]
    BatchEnds fixes "ab\ncd\nef" (.ok "bf") ∧
    Apart fixes ∧ (∀ fix ∈ fixes, ¬ fix.Outside (linesOf "ab\ncd\nef").length) ∧
    Fix.RowsWithin ["abf".toList] (Fix.removal (.of 1 1 1 2)) ∧
    tryApplyFixes fixes "ab\ncd\nef" = ⟨some "bf", none⟩ := by
  intro fixes
  obtain ⟨hends, hrows, -⟩ := batch_ends_as_due fixes "ab\ncd\nef"
  have hapart : Apart fixes := by
    unfold Apart
    decide
  have hinside : ∀ fix ∈ fixes, ¬ fix.Outside (linesOf "ab\ncd\nef").length := by
    unfold Fix.Outside
    decide
  exact ⟨(hends _).1 rfl, hapart, hinside,
    hrows hapart hinside [Fix.removal (.of 1 3 3 2)] _ [] rfl, rfl⟩

end ProjectReview
