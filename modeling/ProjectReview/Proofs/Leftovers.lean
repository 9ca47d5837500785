import ProjectReview.Catalog.Script
import ProjectReview.Proofs.Rewriting

set_option autoImplicit false

/-! # What the fixes leave behind

The loop of fixes skips a finding whose file cannot be read or whose fixes do not apply
(`Hindered`). It keeps the key of the finding, and from then on every finding with that key is
passed over. So a key is skipped because some finding with it was tried at an earlier head of the
loop (`Reaches.skippedBefore`), and at the end, with a pass left, every finding that could be fixed
has such a key: this is the main result, `left_findings_were_tried`.

A key says nothing of the fixes, and a file may change after a finding in it was skipped. Where
neither happens, what is left cannot be fixed. Where two findings have the same key and different
fixes, the second is never tried (`second_fix_is_left`). -/

namespace ProjectReview

/-! ## Findings that cannot be fixed -/

/-- Reads the file that a finding is about. -/
def Finding.read (finding : Finding) (files : Node) (root : List String) : Except Fault String :=
  files.readTextAt (finding.file root).parts (finding.file root)

/-- Why a finding cannot be fixed: its file cannot be read, or its fixes do not apply. -/
inductive Hindered (files : Node) (root : List String) (finding : Finding) : Fault → Prop
  | unreadable {fault : Fault} (read : finding.read files root = .error fault) :
      Hindered files root finding fault
  | refused {source : String} {fault : FixFault} (read : finding.read files root = .ok source)
      (fixes : applyFixes finding.fixes source = .error fault) :
      Hindered files root finding (.fix fault)

section Hindered

variable {files : Node} {root : List String} {finding : Finding} {fault : Fault}

theorem Hindered.fixedText_eq (h : Hindered files root finding fault) :
    fixedText files root finding = Journaled.fail fault := by
  cases h with
  | unreadable hread =>
    rw [Finding.read] at hread
    rw [fixedText, hread]
  | refused hread hfixes =>
    rw [Finding.read] at hread
    simp only [fixedText, hread, hfixes]

theorem fixedText_eq_error_iff :
    (fixedText files root finding).outcome = .error fault ↔ Hindered files root finding fault := by
  constructor
  · intro h
    rw [fixedText] at h
    split at h
    · next fault' hread =>
      obtain rfl : fault' = fault := Except.error.inj h
      exact .unreadable hread
    · next source hread =>
      split at h
      · next refusal hfixes =>
        obtain rfl : .fix refusal = fault := Except.error.inj h
        exact .refused hread hfixes
      · cases h
  · intro h
    rw [h.fixedText_eq]
    rfl

/-- Findings at the same path are hindered alike while they have the same fixes and their file has
    the same text. -/
theorem Hindered.congr {later : Node} {other : Finding} (h : Hindered files root finding fault)
    (hfixes : finding.fixes = other.fixes)
    (hread : finding.read files root = other.read later root) :
    Hindered later root other fault := by
  cases h with
  | unreadable read => exact .unreadable (hread.symm.trans read)
  | refused read fixes => exact .refused (hread.symm.trans read) (hfixes ▸ fixes)

end Hindered

/-- Nothing is skipped when the loop begins. -/
theorem Session.skipped_firstHead? {ι : Type} {K : ι → Type} {environment : Environment}
    {opened : Session K} {files : Node} {start : FixHead K}
    (h : opened.firstHead? environment files = some start) : start.state.skipped = [] := by
  obtain ⟨result, session, -, rfl⟩ := Session.firstHead?_eq_some_iff.1 h
  rfl

namespace FixHead

variable {ι : Type} {K : ι → Type} {environment : Environment} {dryRun : Bool} {limit : Int}
  {start head next : FixHead K} {finding : Finding}

/-! ## What is tried, and what becomes of it -/

/-- The finding is tried at the head: a pass is left, and no finding comes before it. -/
structure Tries (limit : Int) (head : FixHead K) (finding : Finding) : Prop where
  below : (head.state.applied : Int) < limit
  first : head.state.pending.head? = some finding

/-- How trying a finding ends. -/
inductive Attempted (environment : Environment) (dryRun : Bool) (head : FixHead K)
    (finding : Finding) : FixStep K → Prop
  | hindered {fault : Fault} (why : Hindered head.files head.state.session.root finding fault)
      (skipped : fault.isSkipped = true) :
      Attempted environment dryRun head finding (.skips ⟨head.files, head.state.skip finding⟩)
  | dry {text : String} (dry : dryRun = true)
      (fixed : (fixedText head.files head.state.session.root finding).outcome = .ok text) :
      Attempted environment dryRun head finding (.skips ⟨head.files, head.state.skip finding⟩)
  | escapes {fault : Fault} (why : Hindered head.files head.state.session.root finding fault)
      (escapes : fault.isSkipped = false) :
      Attempted environment dryRun head finding (.fails fault head.files)
  | unwritten {text : String} {written : Node} {fault : FileFault} (wet : dryRun = false)
      (fixed : (fixedText head.files head.state.session.root finding).outcome = .ok text)
      (write : head.files.safeWrite {} (finding.file head.state.session.root).parts
        (encodeUtf8 text) = (written, .error fault)) :
      Attempted environment dryRun head finding (.fails (.file fault) written)
  | unrefreshed {text : String} {written : Node} {fault : Fault} (wet : dryRun = false)
      (fixed : (fixedText head.files head.state.session.root finding).outcome = .ok text)
      (write : head.files.safeWrite {} (finding.file head.state.session.root).parts
        (encodeUtf8 text) = (written, .ok ()))
      (refresh : (head.state.session.refresh (environment.host written)).outcome = .error fault) :
      Attempted environment dryRun head finding (.fails fault written)
  | written {text : String} {written : Node} {result : SessionResult} {session : Session K}
      (wet : dryRun = false)
      (fixed : (fixedText head.files head.state.session.root finding).outcome = .ok text)
      (write : head.files.safeWrite {} (finding.file head.state.session.root).parts
        (encodeUtf8 text) = (written, .ok ()))
      (refresh : (head.state.session.refresh (environment.host written)).outcome
        = .ok (result, session)) :
      Attempted environment dryRun head finding
        (.writes ⟨written, { session, result, skipped := head.state.skipped
                             applied := head.state.applied + 1 }⟩)

theorem attempted_tryFinding (environment : Environment) (dryRun : Bool) (head : FixHead K)
    (finding : Finding) :
    Attempted environment dryRun head finding (head.tryFinding environment dryRun finding) := by
  rw [tryFinding]
  split
  · next fault htext =>
    have hwhy := fixedText_eq_error_iff.1 htext
    split
    · next hskipped => exact .hindered hwhy hskipped
    · next hescapes => exact .escapes hwhy (Bool.eq_false_iff.2 hescapes)
  · next text htext =>
    split
    · next hdry => exact .dry hdry htext
    · next hwet =>
      have hwet := Bool.eq_false_iff.2 hwet
      split
      · next written fault hwrite => exact .unwritten hwet htext hwrite
      · next written hwrite =>
        split
        · next fault hrefresh => exact .unrefreshed hwet htext hwrite hrefresh
        · next result session hrefresh => exact .written hwet htext hwrite hrefresh

/-- An iteration that does not stop tries a finding. -/
theorem attempted_of_ne_stops {step : FixStep K}
    (h : head.iterate environment dryRun limit = step) (hgoes : step ≠ .stops) :
    ∃ finding, head.Tries limit finding ∧ Attempted environment dryRun head finding step := by
  rw [← h] at hgoes ⊢
  obtain ⟨finding, others, hbelow, hpending, htry⟩ := iterate_ne_stops hgoes
  refine ⟨finding, ⟨hbelow, by rw [hpending]; rfl⟩, ?_⟩
  rw [htry]
  exact attempted_tryFinding environment dryRun head finding

/-- An iteration with a finding to try does not stop. -/
theorem Tries.attempted (h : head.Tries limit finding) (environment : Environment)
    (dryRun : Bool) :
    Attempted environment dryRun head finding (head.iterate environment dryRun limit) := by
  obtain ⟨others, hpending⟩ := List.head?_eq_some_iff.1 h.first
  rw [iterate_of_pending environment dryRun h.below hpending]
  exact attempted_tryFinding environment dryRun head finding

/-- Where the loop stops with a pass left, the keys of all findings that have fixes are skipped. -/
theorem key_mem_skipped (hstop : head.iterate environment dryRun limit = .stops)
    (hbelow : (head.state.applied : Int) < limit)
    (hfinding : finding ∈ head.state.result.report.fixable) :
    finding.key ∈ head.state.skipped := by
  have hpending : head.state.pending = [] := by
    cases hpending : head.state.pending with
    | nil => rfl
    | cons first others =>
      have htries : head.Tries limit first := ⟨hbelow, by rw [hpending]; rfl⟩
      have hattempted := htries.attempted environment dryRun
      rw [hstop] at hattempted
      cases hattempted
  have hnot := List.filter_eq_nil_iff.1 hpending finding hfinding
  simpa using hnot

/-! ## Along the loop -/

theorem tries_of_skips (h : head.iterate environment dryRun limit = .skips next) :
    ∃ finding, head.Tries limit finding ∧ next = ⟨head.files, head.state.skip finding⟩ := by
  obtain ⟨finding, htries, hattempted⟩ := attempted_of_ne_stops h (by simp)
  refine ⟨finding, htries, ?_⟩
  cases hattempted <;> rfl

theorem skipped_of_writes (h : head.iterate environment dryRun limit = .writes next) :
    next.state.skipped = head.state.skipped := by
  obtain ⟨finding, htries, hattempted⟩ := attempted_of_ne_stops h (by simp)
  cases hattempted
  rfl

/-- The loop stays among heads from which it does not lead away. -/
theorem Reaches.mem_of_closed {writes : ℕ} {heads : List (FixHead K)}
    (h : Reaches environment dryRun limit start writes head) (hstart : start ∈ heads)
    (hclosed : ∀ head ∈ heads, ∀ next, GoesOn environment dryRun limit head next → next ∈ heads) :
    head ∈ heads := by
  induction h with
  | refl => exact hstart
  | skip _ hstep ih => exact hclosed _ ih _ (Or.inl hstep)
  | write _ hstep ih => exact hclosed _ ih _ (Or.inr hstep)

/-- Some finding with the key was tried and skipped at a head on the way. -/
structure SkippedBefore (environment : Environment) (dryRun : Bool) (limit : Int)
    (start head : FixHead K) (key : FindingKey) (before : FixHead K) (tried : Finding) : Prop where
  earlier : ∃ writes, Reaches environment dryRun limit start writes before
  later : ∃ writes, Reaches environment dryRun limit before writes head
  tries : before.Tries limit tried
  skips : before.iterate environment dryRun limit = .skips ⟨before.files, before.state.skip tried⟩
  key : tried.key = key

theorem SkippedBefore.step {key : FindingKey} {before : FixHead K} {tried : Finding}
    (h : SkippedBefore environment dryRun limit start head key before tried)
    (hstep : GoesOn environment dryRun limit head next) :
    SkippedBefore environment dryRun limit start next key before tried := by
  obtain ⟨writes, hlater⟩ := h.later
  refine { h with later := ?_ }
  rcases hstep with hskips | hwrites
  · exact ⟨writes, .skip hlater hskips⟩
  · exact ⟨writes + 1, .write hlater hwrites⟩

/-- **A key is skipped because a finding with it was tried.** -/
theorem Reaches.skippedBefore {writes : ℕ} {key : FindingKey}
    (h : Reaches environment dryRun limit start writes head) (hstart : start.state.skipped = [])
    (hkey : key ∈ head.state.skipped) :
    ∃ before tried, SkippedBefore environment dryRun limit start head key before tried := by
  induction h with
  | refl =>
    rw [hstart] at hkey
    cases hkey
  | @skip writes head next before hstep ih =>
    obtain ⟨finding, htries, rfl⟩ := tries_of_skips hstep
    rcases List.mem_append.1 hkey with hold | hnew
    · obtain ⟨earlier, tried, hskipped⟩ := ih hold
      exact ⟨earlier, tried, hskipped.step (Or.inl hstep)⟩
    · exact ⟨head, finding, ⟨writes, before⟩, ⟨0, .skip .refl hstep⟩, htries, hstep,
        (List.mem_singleton.1 hnew).symm⟩
  | write _ hstep ih =>
    rw [skipped_of_writes hstep] at hkey
    obtain ⟨earlier, tried, hskipped⟩ := ih hkey
    exact ⟨earlier, tried, hskipped.step (Or.inr hstep)⟩

/-- Why a finding is still there when the loop stops: one with its key was tried and could not be
    fixed. Neither can the finding itself, unless it has other fixes than the one that was tried or
    the file has another text by now. -/
structure LeftBehind (environment : Environment) (limit : Int) (start head : FixHead K)
    (finding : Finding) (before : FixHead K) (tried : Finding) (fault : Fault) : Prop where
  earlier : ∃ writes, Reaches environment false limit start writes before
  later : ∃ writes, Reaches environment false limit before writes head
  tries : before.Tries limit tried
  key : tried.key = finding.key
  why : Hindered before.files before.state.session.root tried fault
  skipped : fault.isSkipped = true
  still : Hindered head.files head.state.session.root finding fault ∨
    tried.fixes ≠ finding.fixes ∨
    tried.read before.files before.state.session.root
      ≠ finding.read head.files head.state.session.root

theorem SkippedBefore.leftBehind {before : FixHead K} {tried : Finding}
    (h : SkippedBefore environment false limit start head finding.key before tried) :
    ∃ fault, LeftBehind environment limit start head finding before tried fault := by
  have hattempted := h.tries.attempted environment false
  rw [h.skips] at hattempted
  cases hattempted with
  | dry hdry => cases hdry
  | @hindered fault hwhy hskipped =>
    refine ⟨fault, h.earlier, h.later, h.tries, h.key, hwhy, hskipped, ?_⟩
    by_cases hfixes : tried.fixes = finding.fixes
    · by_cases hread : tried.read before.files before.state.session.root
          = finding.read head.files head.state.session.root
      · obtain ⟨writes, hlater⟩ := h.later
        have hroot : head.state.session.root = before.state.session.root := hlater.patchedTimes.1
        rw [hroot] at hread ⊢
        exact Or.inl (hwhy.congr hfixes hread)
      · exact Or.inr (Or.inr hread)
    · exact Or.inr (Or.inl hfixes)

/-- **What the fixes leave has been tried.** The command without a dry run goes through its loop up
    to a head where it ends. If the loop stops there with a pass left, then for every finding with
    fixes in the last result, a finding with the same key was tried earlier, and its file could not
    be read or its fixes did not apply. The same is true of the finding itself and the files as they
    are left, unless its fixes are other ones or its file has changed in between. -/
theorem left_findings_were_tried (environment : Environment) (opened : Session K) (limit : Int)
    (files : Node) (start : FixHead K)
    (hstart : opened.firstHead? environment files = some start) :
    ∃ writes head, Reaches environment false limit start writes head ∧
      EndsCommand environment false limit head (opened.fixFindings environment false limit files) ∧
      (head.iterate environment false limit = .stops → (head.state.applied : Int) < limit →
        ∀ finding ∈ head.state.result.report.fixable, ∃ before tried fault,
          LeftBehind environment limit start head finding before tried fault) := by
  obtain ⟨writes, head, hreaches, hends⟩ := fixFindings_ends hstart false limit
  refine ⟨writes, head, hreaches, hends, fun hstop hbelow finding hfinding => ?_⟩
  obtain ⟨before, tried, hskipped⟩ := hreaches.skippedBefore (Session.skipped_firstHead? hstart)
    (key_mem_skipped hstop hbelow hfinding)
  exact ⟨before, tried, hskipped.leftBehind⟩

end FixHead

/-! ## Two fixes under one key -/

/-- A finding at the start of a file, with one fix. -/
def oddFinding (path : String) (fix : Fix) : Finding where
  path := path
  range := Range.of 1 1 1 2
  message := "odd"
  fixes := [fix]

/-- A session on the text files of a directory, with a review that reports the same whatever they
    hold. -/
def openOdd (findings : List Finding) : Except Fault (Session fun _ : Unit => Value) :=
  let inspector : ScriptInspector := { answer := .constant (.bool true) }
  Session.start [] [⟨(), scriptReview "odd" [(.extraFile, inspector)] .first (.fixed findings)⟩]
    [("extra_file_patterns", .texts ["*.txt"])]

namespace FixHead

/-- Of two fixes with the same key the first lies outside of the file and the second applies: the
    loop stops after the first one. -/
theorem loop_two_fixes :
    let outside : Fix := ⟨Range.of 9 1 9 2, "b"⟩
    let inside : Fix := ⟨Range.of 1 1 1 2, "b"⟩
    let files := (Host.singleFile "a.txt" "a\n").files
    let environment : Environment := { directory := [], root := [] }
    ∃ opened start head,
      openOdd [oddFinding "a.txt" outside, oddFinding "a.txt" inside] = .ok opened ∧
      opened.firstHead? environment files = some start ∧
      start.iterate environment false 5 = .skips head ∧
      head.iterate environment false 5 = .stops ∧ head.state.applied = 0 ∧
      (opened.fixFindings environment false 5 files).1.outcome = .ok 1 ∧
      ∃ finding ∈ head.state.result.report.fixable,
        (fixedText head.files head.state.session.root finding).outcome = .ok "b\n" := by
  intro outside inside files environment
  have hrun : ((openOdd [oddFinding "a.txt" outside, oddFinding "a.txt" inside]).toOption.bind
      fun opened =>
      (opened.firstHead? environment files).bind fun start =>
        match start.iterate environment false 5 with
        | .skips head =>
          match head.iterate environment false 5 with
          | .stops =>
            (head.state.result.report.fixable.getLast?).map fun finding =>
              (head.state.applied,
                (opened.fixFindings environment false 5 files).1.outcome.toOption,
                (fixedText head.files head.state.session.root finding).outcome.toOption)
          | _ => none
        | _ => none)
      = some (0, some 1, some "b\n") := by
    decide +kernel
  obtain ⟨opened, hopened, hrun⟩ := Option.bind_eq_some_iff.1 hrun
  obtain ⟨start, hstart, hrun⟩ := Option.bind_eq_some_iff.1 hrun
  split at hrun
  · next head hfirst =>
    split at hrun
    · next hsecond =>
      obtain ⟨finding, hlast, hrun⟩ := Option.map_eq_some_iff.1 hrun
      obtain ⟨happlied, hrun⟩ := Prod.mk.inj hrun
      obtain ⟨hcode, htext⟩ := Prod.mk.inj hrun
      exact ⟨opened, start, head, toOption_eq_some.1 hopened, hstart, hfirst, hsecond, happlied,
        toOption_eq_some.1 hcode, finding, List.mem_of_getLast? hlast, toOption_eq_some.1 htext⟩
    · cases hrun
  · cases hrun

/-- The finding with the second fix is left because of the first one, whose fix is another one. -/
theorem left_findings_were_tried_two_fixes :
    let outside : Fix := ⟨Range.of 9 1 9 2, "b"⟩
    let inside : Fix := ⟨Range.of 1 1 1 2, "b"⟩
    let files := (Host.singleFile "a.txt" "a\n").files
    let environment : Environment := { directory := [], root := [] }
    ∃ opened start head finding before tried fault,
      openOdd [oddFinding "a.txt" outside, oddFinding "a.txt" inside] = .ok opened ∧
      opened.firstHead? environment files = some start ∧
      finding ∈ head.state.result.report.fixable ∧
      LeftBehind environment 5 start head finding before tried fault := by
  intro outside inside files environment
  obtain ⟨opened, start, head, hopened, hstart, hfirst, hsecond, happlied, -, finding, hfinding, -⟩
    := loop_two_fixes
  obtain ⟨writes, last, hreaches, hends, hleft⟩ :=
    left_findings_were_tried environment opened 5 files start hstart
  have hlast : last ∈ [start, head] := by
    refine hreaches.mem_of_closed List.mem_cons_self ?_
    simp only [List.forall_mem_cons, GoesOn, environment, hfirst, hsecond]
    simp [eq_comm]
  rcases List.mem_pair.1 hlast with rfl | rfl
  · -- The loop goes on at the first head.
    cases hends with
    | stops hstop => rw [hfirst] at hstop; cases hstop
    | fails hfail => rw [hfirst] at hfail; cases hfail
  · obtain ⟨before, tried, fault, hbehind⟩ :=
      hleft hsecond (by rw [happlied]; decide) finding hfinding
    exact ⟨opened, start, last, finding, before, tried, fault, hopened, hstart, hfinding, hbehind⟩

/-- **A fix that applies is left behind.** The loop stops with passes left, and a finding of its
    result could be fixed: it is never tried, since another one has the same key. -/
theorem second_fix_is_left :
    let outside : Fix := ⟨Range.of 9 1 9 2, "b"⟩
    let inside : Fix := ⟨Range.of 1 1 1 2, "b"⟩
    let files := (Host.singleFile "a.txt" "a\n").files
    let environment : Environment := { directory := [], root := [] }
    ∃ opened start head finding,
      openOdd [oddFinding "a.txt" outside, oddFinding "a.txt" inside] = .ok opened ∧
      opened.firstHead? environment files = some start ∧
      Reaches environment false 5 start 0 head ∧
      head.iterate environment false 5 = .stops ∧ (head.state.applied : Int) < 5 ∧
      (opened.fixFindings environment false 5 files).1.outcome = .ok 1 ∧
      finding ∈ head.state.result.report.fixable ∧
      ∀ fault, ¬ Hindered head.files head.state.session.root finding fault := by
  intro outside inside files environment
  obtain ⟨opened, start, head, hopened, hstart, hfirst, hsecond, happlied, hcode, finding,
    hfinding, htext⟩ := loop_two_fixes
  refine ⟨opened, start, head, finding, hopened, hstart, .skip .refl hfirst, hsecond,
    by rw [happlied]; decide, hcode, hfinding, fun fault hhindered => ?_⟩
  rw [fixedText_eq_error_iff.2 hhindered] at htext
  cases htext

end FixHead

end ProjectReview
