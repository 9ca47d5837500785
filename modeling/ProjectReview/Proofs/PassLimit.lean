import ProjectReview.Proofs.Printing
import ProjectReview.Proofs.Warnings

set_option autoImplicit false

/-! # The warning about the pass limit

The fix command warns when it has used up its passes. Nothing else that it prints is this warning:
not what a refresh prints, not the lines about files that cannot be parsed, and nothing that is
printed while findings are tried (`tryFixes_notLimit`). So the warning is printed just if the loop
ends with as many fixes applied as there are passes (`limitWarning_mem_fixPasses`).

A loop that stops with a pass left has no finding to try, so whatever is left to try is warned
about. But the passes are counted before the findings are looked at. If the last pass that is
allowed leaves nothing to try, the warning is printed all the same: this is the second case of the
main result, `limit_warning_tells_of_passes`, and `limit_warning_with_nothing_left` is a project
where it comes about. -/

namespace ProjectReview

/-- The warning that the passes are used up. -/
def limitWarning (environment : Environment) (limit : Int) : Event :=
  yellowLine environment.colors
    ("  WARNING: " ++ ("stopped after " ++ toString limit ++ " fix pass(es)"))

/-! ## Other lines -/

section Lines

variable {environment : Environment} {limit : Int} {event : Event}

/-- An event that is not the warning about the limit. -/
def Event.NotLimit (environment : Environment) (limit : Int) (event : Event) : Prop :=
  event ≠ limitWarning environment limit

theorem Event.Quiet.notLimit (h : event.Quiet environment.colors) :
    event.NotLimit environment limit := by
  rintro rfl
  rcases h with hprinted | ⟨entry, hentry⟩
  · cases hprinted
  · have htext := congrArg String.toList (yellowLine_inj.1 hentry)
    simp at htext

theorem notLimit_failure (environment : Environment) (limit : Int) (failure : ParseFault) :
    (yellowLine environment.colors ("  " ++ failure.message)).NotLimit environment limit := by
  intro h
  obtain ⟨rest, hmessage⟩ := failure.message_eq
  have htext := congrArg String.toList (yellowLine_inj.1 h)
  simp [hmessage] at htext

theorem Finding.notLimit_warning (finding : Finding) (environment : Environment) (limit : Int)
    (fault : Fault) : (finding.warning environment fault).NotLimit environment limit := by
  intro h
  have htext := congrArg String.toList (yellowLine_inj.1 h)
  simp at htext

theorem notLimit_out (environment : Environment) (limit : Int) (text : String) :
    (Event.printed .out text).NotLimit environment limit := by
  rintro ⟨⟩

theorem fixedText_notLimit (environment : Environment) (limit : Int) (files : Node)
    (root : List String) (finding : Finding) :
    (fixedText files root finding).All (Event.NotLimit environment limit) := by
  unfold fixedText
  split
  · exact Journaled.all_fail _
  · split
    · exact Journaled.all_fail _
    · exact List.forall_mem_singleton.2 (by rintro ⟨⟩)

/-- Nothing that is printed while findings are tried is the warning about the limit. -/
theorem tryFixes_notLimit (environment : Environment) (dryRun : Bool) (limit : Int)
    (root : List String) (skipped : List FindingKey) (findings : List Finding) (files : Node) :
    (tryFixes environment dryRun root skipped findings files).1.All
      (Event.NotLimit environment limit) := by
  induction findings generalizing skipped files with
  | nil => exact Journaled.all_pure _
  | cons finding rest ih =>
    rw [tryFixes]
    split
    · exact ih skipped files
    · refine Action.all_bind (fixedText_notLimit environment limit files root finding) ?_
      intro outcome next
      cases outcome with
      | error fault =>
        dsimp only
        split
        · exact Action.all_bind
            (Journaled.all_note (finding.notLimit_warning environment limit fault))
            fun _ => ih _
        · exact Journaled.all_fail _
      | ok text =>
        dsimp only
        split
        · exact Action.all_bind (Journaled.all_note (notLimit_out environment limit _)) fun _ => ih _
        · refine Action.all_bind (Journaled.all_ofExcept _) fun _ _ => ?_
          exact Action.all_bind (Journaled.all_note (notLimit_out environment limit _))
            fun _ _ => Journaled.all_pure _

end Lines

/-! ## The passes of the command -/

theorem Action.mem_preceded {σ α : Type} {told : List Event} {event : Event}
    (h : event ∉ told) (run : Journaled Fault α × σ) :
    event ∈ (preceded told run).1.events ↔ event ∈ run.1.events := by
  rw [preceded, List.mem_append, or_iff_right h]

namespace FixHead

variable {ι : Type} {K : ι → Type} {environment : Environment} {dryRun : Bool} {limit : Int}

/-- **The warning is printed just if all passes are used up at the end.** -/
theorem limitWarning_mem_fixPasses (environment : Environment) (dryRun : Bool) (passes : ℕ)
    (files : Node) (state : FixState K) (hpasses : passes = (limit - state.applied).toNat) :
    limitWarning environment limit
        ∈ (fixPasses environment dryRun limit passes state files).1.events ↔
      ∃ last, (fixPasses environment dryRun limit passes state files).1.outcome = .ok last ∧
        limit ≤ last.applied := by
  induction passes generalizing files state with
  | zero =>
    have hlimit : limit ≤ state.applied := by omega
    exact ⟨fun _ => ⟨state, rfl, hlimit⟩, fun _ => List.mem_cons_self⟩
  | succ passes ih =>
    have hbelow : (state.applied : Int) < limit := by omega
    rw [fixPasses]
    have htold := tryFixes_notLimit environment dryRun limit state.session.root state.skipped
      state.result.report.fixable files
    rcases htry : tryFixes environment dryRun state.session.root state.skipped
      state.result.report.fixable files with ⟨⟨told, tried⟩, left⟩
    rw [htry] at htold
    have hnot : limitWarning environment limit ∉ told := fun h => htold _ h rfl
    cases tried with
    | error fault =>
      rw [Action.bind_of_error htry]
      simpa using hnot
    | ok tried =>
      obtain ⟨skipped, fixed⟩ := tried
      rw [Action.bind_of_ok htry, Action.mem_preceded hnot]
      cases fixed with
      | false =>
        -- The loop stops here, and a pass is left.
        have hnone : ¬ ∃ last : FixState K,
            (.ok { state with skipped } : Except Fault (FixState K)) = .ok last ∧
              limit ≤ last.applied := by
          rintro ⟨last, hlast, hlimit⟩
          obtain rfl := Except.ok.inj hlast
          exact absurd hlimit (by simpa using hbelow)
        exact iff_of_false List.not_mem_nil hnone
      | true =>
        have hquiet := state.session.refresh_quiet (environment.host left)
        have hlook : (Action.look fun files => state.session.refresh (environment.host files)) left
            = (⟨(state.session.refresh (environment.host left)).events,
                (state.session.refresh (environment.host left)).outcome⟩, left) := rfl
        have hnotLook : limitWarning environment limit
            ∉ (state.session.refresh (environment.host left)).events :=
          fun h => (hquiet _ h).notLimit rfl
        cases hrefresh : (state.session.refresh (environment.host left)).outcome with
        | error fault =>
          rw [hrefresh] at hlook
          simp only [if_true]
          rw [Action.bind_of_error hlook]
          simpa [Action.preceded] using hnotLook
        | ok refreshed =>
          obtain ⟨result, session⟩ := refreshed
          rw [hrefresh] at hlook
          simp only [if_true]
          rw [Action.bind_of_ok hlook, Action.mem_preceded hnotLook]
          exact ih left { session, result, skipped, applied := state.applied + 1 }
            (by simp only; omega)

/-! ## The command -/

/-- What the command prints behind its loop is not the warning. -/
theorem limitWarning_mem_closed (x : FileAction (FixState K)) (files : Node) :
    limitWarning environment limit ∈ ((x >>= closeFixes environment dryRun) files).1.events ↔
      limitWarning environment limit ∈ (x files).1.events := by
  rcases hx : x files with ⟨⟨told, outcome⟩, left⟩
  cases outcome with
  | error fault => rw [Action.bind_of_error hx]
  | ok last =>
    have hclose : limitWarning environment limit
        ∉ (closeFixes environment dryRun last left).1.events := by
      simp [closeFixes, limitWarning, yellowLine]
    rw [Action.bind_of_ok hx, Action.preceded, List.mem_append, or_iff_left hclose]

/-- What is printed before the loop is not the warning. -/
theorem limitWarning_not_mem_opening (opened : Session K) (files : Node) (result : SessionResult) :
    limitWarning environment limit ∉ (opened.refresh (environment.host files)).events
      ++ (printFailures environment.colors result.failures).events := by
  intro h
  exact opened.forall_mem_opening (environment.host files) result.failures
    (p := Event.NotLimit environment limit) (fun _ => Event.Quiet.notLimit)
    (notLimit_failure environment limit) _ h rfl

/-- The command goes through its loop, and warns just if the loop stops with all passes used up. -/
theorem fixFindings_ends_warned {opened : Session K} {files : Node} {start : FixHead K}
    (hstart : opened.firstHead? environment files = some start) (dryRun : Bool) (limit : Int) :
    ∃ writes head, Reaches environment dryRun limit start writes head ∧
      EndsCommand environment dryRun limit head
        (opened.fixFindings environment dryRun limit files) ∧
      (limitWarning environment limit
          ∈ (opened.fixFindings environment dryRun limit files).1.events ↔
        head.iterate environment dryRun limit = .stops ∧ limit ≤ head.state.applied) := by
  obtain ⟨result, session, hrefresh, rfl⟩ := Session.firstHead?_eq_some_iff.1 hstart
  have hpasses : limit.toNat = (limit - ((0 : ℕ) : Int)).toNat := by simp
  obtain ⟨writes, head, hreaches, hends⟩ :=
    fixPasses_ends environment dryRun limit.toNat files { session, result } hpasses
  refine ⟨writes, head, hreaches, .of_ends hrefresh hends, ?_⟩
  rw [fixFindings_eq hrefresh, Action.mem_preceded (limitWarning_not_mem_opening opened files _),
    limitWarning_mem_closed,
    limitWarning_mem_fixPasses environment dryRun limit.toNat files { session, result } hpasses]
  generalize hpassed : (fixPasses environment dryRun limit limit.toNat
    { session, result }).result files = passed at hends
  have houtcome : (fixPasses environment dryRun limit limit.toNat { session, result }
    files).1.outcome = passed.1 := congrArg Prod.fst hpassed
  cases hends with
  | stops hstop => simp [houtcome, hstop]
  | fails hfail => simp [houtcome, hfail]

/-- At a head where the loop stops, the passes are used up or no finding is left to try. -/
theorem used_up_iff {head : FixHead K} (hstop : head.iterate environment dryRun limit = .stops) :
    limit ≤ head.state.applied ↔
      (∃ finding ∈ head.state.result.report.fixable, finding.key ∉ head.state.skipped) ∨
      limit ≤ head.state.applied ∧
        ∀ finding ∈ head.state.result.report.fixable, finding.key ∈ head.state.skipped := by
  constructor
  · intro hlimit
    by_cases hleft : ∃ finding ∈ head.state.result.report.fixable,
        finding.key ∉ head.state.skipped
    · exact Or.inl hleft
    · push Not at hleft
      exact Or.inr ⟨hlimit, hleft⟩
  · rintro (⟨finding, hfinding, hkey⟩ | ⟨hlimit, -⟩)
    · by_contra hbelow
      exact hkey (key_mem_skipped hstop (not_le.1 hbelow) hfinding)
    · exact hlimit

/-- **The warning about the limit tells of the passes.** Where a fault escapes, it is not printed.
    Where the command gives an exit code, it is printed just if as many files were written as there
    are passes. A finding that is still to be tried is then always warned about, but the warning is
    also printed when nothing is left to try after the last pass. -/
theorem limit_warning_tells_of_passes (environment : Environment) (dryRun : Bool) (limit : Int)
    (opened : Session K) (files : Node) :
    let ran := opened.fixFindings environment dryRun limit files
    let warned := limitWarning environment limit ∈ ran.1.events
    (∀ fault, ran.1.outcome = .error fault → ¬ warned) ∧
    ∀ code, ran.1.outcome = .ok code → ∃ start writes head,
      opened.firstHead? environment files = some start ∧
      Reaches environment dryRun limit start writes head ∧
      EndsCommand environment dryRun limit head ran ∧
      (warned ↔ writes = limit.toNat) ∧
      (warned ↔
        (∃ finding ∈ head.state.result.report.fixable, finding.key ∉ head.state.skipped) ∨
        writes = limit.toNat ∧
          ∀ finding ∈ head.state.result.report.fixable, finding.key ∈ head.state.skipped) := by
  intro ran warned
  cases hrefresh : (opened.refresh (environment.host files)).outcome with
  | error fault =>
    have hran : ran = (⟨(opened.refresh (environment.host files)).events, .error fault⟩, files) :=
      fixFindings_of_error hrefresh dryRun limit
    refine ⟨fun _ _ hwarned => ?_, fun code hcode => ?_⟩
    · simp only [warned, hran] at hwarned
      exact (opened.refresh_quiet (environment.host files) _ hwarned).notLimit rfl
    · rw [hran] at hcode
      cases hcode
  | ok refreshed =>
    obtain ⟨result, session⟩ := refreshed
    have hstart : opened.firstHead? environment files = some ⟨files, { session, result }⟩ :=
      Session.firstHead?_eq_some_iff.2 ⟨result, session, hrefresh, rfl⟩
    obtain ⟨writes, head, hreaches, (hends : EndsCommand environment dryRun limit head ran),
      (hwarned : warned ↔ _)⟩ := fixFindings_ends_warned hstart dryRun limit
    cases hends with
    | fails hfail hescapes =>
      rw [hescapes, hwarned, hfail]
      simp
    | stops hstop hleft hcode htold =>
      obtain ⟨happlied, hwrites⟩ := hreaches.writes_le rfl
      have hused : limit ≤ head.state.applied ↔ writes = limit.toNat := by omega
      rw [hcode, hwarned]
      refine ⟨?_, fun code _ => ⟨_, writes, head, hstart, hreaches,
        .stops hstop hleft hcode htold, ?_, ?_⟩⟩
      · rintro fault ⟨⟩
      · rw [and_iff_right hstop, hused]
      · rw [and_iff_right hstop, ← hused]
        exact used_up_iff hstop

end FixHead

/-! ## The last pass that is allowed -/

/-- A session on the text files of a directory that looks for unfinished work. -/
def openUnfinished : Except Fault (Session fun _ : Unit => List Mark) :=
  Session.start [] [⟨(), unfinishedReview⟩] [("extra_file_patterns", .texts ["*.txt"])]

namespace FixHead

/-- Unfinished work in a file, and one pass: how much is still to be tried behind it, and the exit
    code of the command. -/
def onePass (text : String) : Option (ℕ × Option ExitCode) :=
  let environment : Environment := { directory := [], root := [] }
  let files := (Host.singleFile "a.txt" text).files
  openUnfinished.toOption.bind fun opened =>
    (opened.firstHead? environment files).bind fun start =>
      match start.iterate environment false 1 with
      | .writes second =>
        match second.iterate environment false 1 with
        | .stops => some (second.state.pending.length,
          (opened.fixFindings environment false 1 files).1.outcome.toOption)
        | _ => none
      | _ => none

theorem onePass_eq_some {text : String} {count : ℕ} {code : ExitCode}
    (h : onePass text = some (count, some code)) :
    let environment : Environment := { directory := [], root := [] }
    let files := (Host.singleFile "a.txt" text).files
    ∃ opened start second, openUnfinished = .ok opened ∧
      opened.firstHead? environment files = some start ∧
      start.iterate environment false 1 = .writes second ∧
      second.iterate environment false 1 = .stops ∧ second.state.pending.length = count ∧
      (opened.fixFindings environment false 1 files).1.outcome = .ok code := by
  rw [onePass, Option.bind_eq_some_iff] at h
  obtain ⟨opened, hopened, hrun⟩ := h
  obtain ⟨start, hstart, hrun⟩ := Option.bind_eq_some_iff.1 hrun
  split at hrun
  · next second hfirst =>
    split at hrun
    · next hsecond =>
      obtain ⟨hcount, hcode⟩ := Prod.mk.inj (Option.some.inj hrun)
      exact ⟨opened, start, second, toOption_eq_some.1 hopened, hstart, hfirst, hsecond, hcount,
        toOption_eq_some.1 hcode⟩
    · cases hrun
  · cases hrun

theorem mem_pending_iff {ι : Type} {K : ι → Type} {state : FixState K} {finding : Finding} :
    finding ∈ state.pending ↔
      finding ∈ state.result.report.fixable ∧ finding.key ∉ state.skipped := by
  simp [FixState.pending]

/-- The command ends at the head where its loop stops. -/
theorem EndsCommand.eq_second {ι : Type} {K : ι → Type} {environment : Environment} {dryRun : Bool}
    {limit : Int} {start second head : FixHead K} {run : Journaled Fault ExitCode × Node}
    {writes : ℕ} (hends : EndsCommand environment dryRun limit head run)
    (hreaches : Reaches environment dryRun limit start writes head)
    (hfirst : start.iterate environment dryRun limit = .writes second)
    (hsecond : second.iterate environment dryRun limit = .stops) : head = second := by
  rcases hreaches.of_two hfirst hsecond with rfl | rfl
  · cases hends with
    | stops hstop => rw [hfirst] at hstop; cases hstop
    | fails hfail => rw [hfirst] at hfail; cases hfail
  · rfl

/-- Two words in a line, and one pass: the second one is left, and the warning is printed. -/
theorem limit_warning_tells_of_passes_two_words :
    let environment : Environment := { directory := [], root := [] }
    let files := (Host.singleFile "a.txt" "TODO TODO\n").files
    ∃ opened start head, openUnfinished = .ok opened ∧
      opened.firstHead? environment files = some start ∧
      Reaches environment false 1 start 1 head ∧
      (∃ finding ∈ head.state.result.report.fixable, finding.key ∉ head.state.skipped) ∧
      (opened.fixFindings environment false 1 files).1.outcome = .ok 1 ∧
      limitWarning environment 1 ∈ (opened.fixFindings environment false 1 files).1.events := by
  intro environment files
  have hrun : onePass "TODO TODO\n" = some (1, some 1) := by decide +kernel
  obtain ⟨opened, start, second, hopened, hstart, hfirst, hsecond, hcount, hcode⟩ :=
    onePass_eq_some hrun
  have hleft : ∃ finding ∈ second.state.result.report.fixable,
      finding.key ∉ second.state.skipped := by
    obtain ⟨finding, hfinding⟩ := List.exists_mem_of_length_pos (hcount ▸ Nat.one_pos)
    exact ⟨finding, mem_pending_iff.1 hfinding⟩
  obtain ⟨first, writes, head, hstarted, hreaches, hends, -, hwarned⟩ :=
    (limit_warning_tells_of_passes environment false 1 opened files).2 1 hcode
  obtain rfl := Option.some.inj (hstart.symm.trans hstarted)
  obtain rfl := hends.eq_second hreaches hfirst hsecond
  exact ⟨opened, start, head, hopened, hstart, .write .refl hfirst, hleft, hcode,
    hwarned.2 (Or.inl hleft)⟩

/-- **The warning is printed with nothing left to try.** One word, and one pass: the command fixes
    it, succeeds, and warns that it stopped. -/
theorem limit_warning_with_nothing_left :
    let environment : Environment := { directory := [], root := [] }
    let files := (Host.singleFile "a.txt" "TODO\n").files
    ∃ opened start head, openUnfinished = .ok opened ∧
      opened.firstHead? environment files = some start ∧
      Reaches environment false 1 start 1 head ∧
      EndsCommand environment false 1 head (opened.fixFindings environment false 1 files) ∧
      (∀ finding ∈ head.state.result.report.fixable, finding.key ∈ head.state.skipped) ∧
      (opened.fixFindings environment false 1 files).1.outcome = .ok 0 ∧
      limitWarning environment 1 ∈ (opened.fixFindings environment false 1 files).1.events := by
  intro environment files
  have hrun : onePass "TODO\n" = some (0, some 0) := by decide +kernel
  obtain ⟨opened, start, second, hopened, hstart, hfirst, hsecond, hcount, hcode⟩ :=
    onePass_eq_some hrun
  obtain ⟨writes, head, hreaches, hends, hwarned⟩ := fixFindings_ends_warned hstart false 1
  obtain rfl := hends.eq_second hreaches hfirst hsecond
  refine ⟨opened, start, head, hopened, hstart, .write .refl hfirst, hends, ?_, hcode, ?_⟩
  · intro finding hfinding
    by_contra hkey
    exact List.not_mem_nil (List.length_eq_zero_iff.1 hcount ▸ mem_pending_iff.2 ⟨hfinding, hkey⟩)
  · obtain ⟨finding, text, hwrote⟩ := iterate_eq_writes hfirst
    have happlied := hwrote.applied
    exact hwarned.2 ⟨hsecond, by omega⟩

end FixHead

end ProjectReview
