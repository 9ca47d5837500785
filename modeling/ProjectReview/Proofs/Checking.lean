import ProjectReview.Command.Check
import ProjectReview.Proofs.FixLoop

set_option autoImplicit false

/-! # Checking what the fixes leave

A check of a session that was just opened refreshes it, prints, and exits by the result
(`result_checkFindings`). The result at the end of the loop of fixes is the one that such a refresh
gives for the files that are left, so the exit codes of the two commands can be compared. The fix
command exits by the findings that remain, the check also by the modules that cannot be parsed: this
is the main result, `check_after_fix`. Where no finding remains in a project with such a module, the
fix command succeeds and the check does not (`check_fails_after_fix`). -/

namespace ProjectReview

/-- Files without findings do not count towards the size of a report. -/
theorem Report.findings_totals (report : Report) : report.totals.findings = report.size := by
  simp only [totals, size]
  induction report with
  | nil => rfl
  | cons entry rest ih =>
    obtain ⟨path, findings⟩ := entry
    cases findings with
    | nil => simpa using ih
    | cons finding more => simpa using ih

theorem SessionResult.exitCode_eq (result : SessionResult) :
    result.exitCode = if result.report.size = 0 ∧ result.failures = [] then 0 else 1 := by
  rw [exitCode, Report.findings_totals]

/-! ## The check command -/

theorem Journaled.outcome_forM {ε α : Type} {f : α → Journaled ε Unit}
    (h : ∀ a, (f a).outcome = .ok ()) (xs : List α) : (xs.forM f).outcome = .ok () := by
  induction xs with
  | nil => rfl
  | cons a rest ih =>
    show (f a >>= fun _ => rest.forM f).outcome = .ok ()
    rw [outcome_bind, h a]
    exact ih

theorem outcome_printFinding (colors details : Bool) (finding : Finding) :
    (printFinding colors details finding).outcome = .ok () := by
  cases details with
  | false => rfl
  | true => exact Journaled.outcome_forM (fun _ => rfl) finding.details

/-- Printing the result of a check does not fail. -/
theorem outcome_printCheck (colors json details : Bool) (result : SessionResult) :
    (printCheck colors json details result).outcome = .ok () := by
  unfold printCheck
  cases json with
  | true => rfl
  | false =>
    simp only [Bool.false_eq_true, if_false]
    rw [Journaled.outcome_bind, FixHead.outcome_printFailures]
    simp only [Except.bind]
    split
    · rfl
    · rw [Journaled.outcome_bind, Journaled.outcome_forM (outcome_printFinding colors details)]
      rfl

section Commands

variable {ι : Type} {K : ι → Type}

theorem Session.outcome_refresh (session : Session K) (host : Host) :
    (session.refresh host).outcome = (Session.refreshInPlace host session).1.outcome.map
      fun result => (result, (Session.refreshInPlace host session).2) := rfl

/-- A check whose refresh succeeds exits by the result and leaves the files as they are. -/
theorem Session.result_checkFindings {environment : Environment} {opened : Session K} {files : Node}
    {result : SessionResult}
    (h : (Session.refreshInPlace (environment.host files) opened).1.outcome = .ok result)
    (json details : Bool) :
    (opened.checkFindings environment json details).result files
      = (.ok result.exitCode, files) := by
  have hlook : (Action.look fun files => opened.refresh (environment.host files)).result files
      = (.ok (result, (Session.refreshInPlace (environment.host files) opened).2), files) := by
    rw [Action.result_look, Session.outcome_refresh, h]
    rfl
  simp only [Session.checkFindings, Action.result_bind, hlook, Action.result_lift,
    outcome_printCheck, Action.result_pure]

/-! ## After the fixes -/

namespace FixHead

variable {environment : Environment} {root : List String} {reviews : List (AnyReview Fault K)}
  {config : Config} {opened : Session K} {dryRun : Bool} {limit : Int} {files : Node}
  {start : FixHead K}

/-- A fix command that does not fail exits by the findings that a new session reports for the files
    it leaves. -/
theorem fixFindings_exit (hopened : Session.start root reviews config = .ok opened)
    (hstart : opened.firstHead? environment files = some start)
    (hdigests : Set.InjOn contentDigest (start.occurring environment dryRun limit root))
    {code : ExitCode}
    (hcode : (opened.fixFindings environment dryRun limit files).1.outcome = .ok code) :
    ∃ result, (Session.refreshInPlace
        (environment.host (opened.fixFindings environment dryRun limit files).2) opened).1.outcome
        = .ok result ∧
      code = if 0 < result.report.size then 1 else 0 := by
  obtain ⟨hnew, silenced, hfollows⟩ := Session.start_follows hopened
    (start.occurring environment dryRun limit root)
  obtain ⟨writes, head, hreaches, hends⟩ := fixFindings_ends hstart dryRun limit
  obtain ⟨result, session, hrefresh, rfl⟩ := Session.firstHead?_eq_some_iff.1 hstart
  have hfirst : Fresh environment root config silenced _ opened ⟨files, { session, result }⟩ :=
    Fresh.of_refresh hfollows hfollows hnew hdigests
      (fun path text htext => ⟨0, _, .refl, path, htext⟩) hrefresh
  have hfresh := Fresh.of_reaches hfirst hfollows hnew hdigests hreaches
  cases hends with
  | stops _ hleft hexit =>
    rw [hleft]
    exact ⟨head.state.result, hfresh.result, Except.ok.inj (hcode.symm.trans hexit)⟩
  | fails _ hfault =>
    rw [hfault] at hcode
    cases hcode

end FixHead

/-- What a refresh of a new session reports as not parsed is what a first load does not parse. -/
theorem Session.failures_of_refresh {root : List String} {reviews : List (AnyReview Fault K)}
    {config : Config} {opened : Session K} {host : Host} {result : SessionResult}
    (hopened : Session.start root reviews config = .ok opened)
    (h : (Session.refreshInPlace host opened).1.outcome = .ok result) :
    ∃ loaded, (host.loadDelta root config {}).outcome = .ok loaded ∧
      loaded.failures = result.failures := by
  obtain ⟨hnew, silenced, hfollows⟩ := Session.start_follows hopened ∅
  rw [Session.outcome_refreshInPlace, hfollows.root, hfollows.config, hnew] at h
  obtain ⟨loaded, hload, hrun⟩ := bind_eq_ok.1 h
  obtain ⟨ran, -, rfl⟩ := map_eq_ok.1 hrun
  exact ⟨loaded, hload, rfl⟩

/-- **A check after the fixes.** When the fix command on a session that was opened ends with an exit
    code, a check of the files that it leaves, with the same reviews and configuration, changes no
    file and exits with 0 just if that exit code is 0 and every module that is loaded can be parsed;
    else it exits with 1. Different texts are to have different digests. -/
theorem check_after_fix (environment : Environment) (root : List String)
    (reviews : List (AnyReview Fault K)) (config : Config) (opened : Session K)
    (hopened : Session.start root reviews config = .ok opened) (dryRun : Bool) (limit : Int)
    (files : Node) (start : FixHead K) (hstart : opened.firstHead? environment files = some start)
    (hdigests : Set.InjOn contentDigest (start.occurring environment dryRun limit root))
    (code : ExitCode)
    (hcode : (opened.fixFindings environment dryRun limit files).1.outcome = .ok code)
    (json details : Bool) :
    let left := (opened.fixFindings environment dryRun limit files).2
    ∃ loaded, ((environment.host left).loadDelta root config {}).outcome = .ok loaded ∧
      (opened.checkFindings environment json details).result left
        = (.ok (if code = 0 ∧ loaded.failures = [] then 0 else 1), left) := by
  intro left
  obtain ⟨result, hresult, rfl⟩ := FixHead.fixFindings_exit hopened hstart hdigests hcode
  obtain ⟨loaded, hload, hfailures⟩ := Session.failures_of_refresh hopened hresult
  have hexit : result.exitCode
      = if (if 0 < result.report.size then 1 else 0) = 0 ∧ loaded.failures = [] then 0 else 1 := by
    rw [SessionResult.exitCode_eq, hfailures]
    by_cases hsize : result.report.size = 0
    · simp [hsize]
    · simp [hsize, Nat.pos_of_ne_zero hsize]
  exact ⟨loaded, hload, hexit ▸ Session.result_checkFindings hresult json details⟩

end Commands

/-- Unfinished work that is marked as done: the fix command succeeds, and so does a check of the
    file that it leaves. -/
theorem check_after_fix_unfinished :
    let reviews : List (AnyReview Fault fun _ : Unit => List Mark) := [⟨(), unfinishedReview⟩]
    let config : Config := [("extra_file_patterns", .texts ["*.txt"])]
    let environment : Environment := { directory := [], root := [] }
    let before := Host.singleFile "a.txt" "TODO\n"
    ∃ opened start, Session.start [] reviews config = .ok opened ∧
      opened.firstHead? environment before.files = some start ∧
      Set.InjOn contentDigest (start.occurring environment false 5 []) ∧
      (opened.fixFindings environment false 5 before.files).1.outcome = .ok 0 ∧
      (opened.checkFindings environment true false).result
        (opened.fixFindings environment false 5 before.files).2
        = (.ok 0, (opened.fixFindings environment false 5 before.files).2) := by
  intro reviews config environment before
  have hrun : ((Session.start [] reviews config).toOption.bind fun opened =>
      (opened.firstHead? environment before.files).bind fun start =>
        match start.iterate environment false 5 with
        | .writes second =>
          match second.iterate environment false 5 with
          | .stops =>
            some ([start.files.onlyFile?, second.files.onlyFile?],
              (opened.fixFindings environment false 5 before.files).1.outcome.toOption,
              (((environment.host (opened.fixFindings environment false 5 before.files).2).loadDelta
                [] config {}).outcome.map fun loaded => loaded.failures.isEmpty).toOption)
          | _ => none
        | _ => none)
      = some ([some ("a.txt", encodeUtf8 "TODO\n"), some ("a.txt", encodeUtf8 "DONE\n")], some 0,
          some true) := by
    decide +kernel
  obtain ⟨opened, hopened, hrun⟩ := Option.bind_eq_some_iff.1 hrun
  obtain ⟨start, hstart, hrun⟩ := Option.bind_eq_some_iff.1 hrun
  split at hrun
  · next second hfirst =>
    split at hrun
    · next hsecond =>
      obtain ⟨hfiles, hrun⟩ := Prod.mk.inj (Option.some.inj hrun)
      obtain ⟨hbefore, hfiles⟩ := List.cons.inj hfiles
      have hafter := (List.cons.inj hfiles).1
      obtain ⟨hcode, hfailures⟩ := Prod.mk.inj hrun
      have hopened := toOption_eq_some.1 hopened
      have hcode := toOption_eq_some.1 hcode
      have hread : ∀ text ∈ ["TODO\n", "DONE\n"], readText (encodeUtf8 text) = .ok text := by
        simp only [List.mem_cons, List.not_mem_nil, or_false, forall_eq_or_imp, forall_eq]
        exact ⟨rfl, rfl⟩
      have hdigests : Set.InjOn contentDigest (start.occurring environment false 5 []) := by
        refine (Host.injOn_singleFiles [] "a.txt" hread (by decide +kernel)).mono ?_
        rintro text ⟨writes, head, hreaches, path, htext⟩
        rcases hreaches.of_two hfirst hsecond with rfl | rfl
        · rw [Node.eq_of_onlyFile? hbefore] at htext
          exact ⟨before, List.mem_cons_self, path, htext⟩
        · rw [Node.eq_of_onlyFile? hafter] at htext
          exact ⟨_, List.mem_cons_of_mem _ List.mem_cons_self, path, htext⟩
      obtain ⟨loaded, hload, hcheck⟩ := check_after_fix environment [] reviews config opened hopened
        false 5 before.files start hstart hdigests 0 hcode true false
      rw [hload] at hfailures
      have hnone : loaded.failures = [] := List.isEmpty_iff.1 (Option.some.inj hfailures)
      rw [hnone] at hcheck
      exact ⟨opened, start, hopened, hstart, hdigests, hcode, hcheck⟩
    · cases hrun
  · cases hrun

/-- A module that cannot be parsed: the fix command succeeds, since no finding remains, and a check
    of the same file fails. -/
theorem check_fails_after_fix :
    let reviews : List (AnyReview Fault fun _ : Unit => List Mark) := [⟨(), unfinishedReview⟩]
    let config : Config := [("module_patterns", .texts ["*.py"])]
    let environment : Environment := { directory := [], root := [] }
    let files := (Host.singleFile "broken.py" "x = = 1\n").files
    ∃ opened, Session.start [] reviews config = .ok opened ∧
      (opened.fixFindings environment false 5 files).1.outcome = .ok 0 ∧
      ((opened.checkFindings environment false false).result
        (opened.fixFindings environment false 5 files).2).1 = .ok 1 := by
  intro reviews config environment files
  have hrun : ((Session.start [] reviews config).toOption.bind fun opened =>
      some ((opened.fixFindings environment false 5 files).1.outcome.toOption,
        ((opened.checkFindings environment false false).result
          (opened.fixFindings environment false 5 files).2).1.toOption))
      = some (some 0, some 1) := by
    decide +kernel
  obtain ⟨opened, hopened, hrun⟩ := Option.bind_eq_some_iff.1 hrun
  obtain ⟨hfix, hcheck⟩ := Prod.mk.inj (Option.some.inj hrun)
  exact ⟨opened, toOption_eq_some.1 hopened, toOption_eq_some.1 hfix, toOption_eq_some.1 hcheck⟩

end ProjectReview
