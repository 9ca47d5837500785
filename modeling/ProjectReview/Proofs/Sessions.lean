import ProjectReview.Host.Session
import ProjectReview.Proofs.Loading
import ProjectReview.Proofs.Suites

set_option autoImplicit false

/-! # Sessions that go on report what new sessions report

A refresh loads, runs and only then assigns: `Refreshed` lists how it can end, and where it fails
the session is as it was. A session follows a project when its suite is in step with the project and
its snapshot mirrors it (`Follows`); every refresh keeps this, whether it fails or not. From a
session that follows a project, a load ends like a load from no snapshot and a run like first runs
over the project that results. So a refresh ends like the first refresh of a new session, which is
the main result, `refresh_like_new_session`. -/

namespace ProjectReview

namespace Session

variable {ι : Type} {K : ι → Type}

/-! ## One refresh -/

/-- How a refresh ends: its outcome and the session it leaves. -/
inductive Refreshed (host : Host) (session : Session K) :
    Except Fault SessionResult → Session K → Prop
  | loadFailed {fault : Fault}
      (load : (host.loadDelta session.root session.config session.snapshot).outcome = .error fault) :
      Refreshed host session (.error fault) session
  | runFailed {loaded : LoadResult} {fault : Fault}
      (load : (host.loadDelta session.root session.config session.snapshot).outcome = .ok loaded)
      (run : (session.suite.run loaded.delta).outcome = .error fault) :
      Refreshed host session (.error fault) session
  | done {loaded : LoadResult} {result : SuiteResult Fault K}
      (load : (host.loadDelta session.root session.config session.snapshot).outcome = .ok loaded)
      (run : (session.suite.run loaded.delta).outcome = .ok result) :
      Refreshed host session (.ok ⟨result.report, loaded.failures⟩)
        { session with
          suite := result.next
          snapshot := loaded.snapshot
          runs := session.runs + 1 }

theorem refreshed (host : Host) (session : Session K) :
    Refreshed host session (refreshInPlace host session).1.outcome
      (refreshInPlace host session).2 := by
  unfold refreshInPlace
  simp only [bind, Action.bind, Action.look]
  rcases hload : host.loadDelta session.root session.config session.snapshot with ⟨events, outcome⟩
  cases outcome with
  | error fault => exact .loadFailed (by rw [hload])
  | ok loaded =>
    simp only
    rcases hrun : session.suite.run loaded.delta with ⟨more, outcome⟩
    cases outcome with
    | error fault => exact .runFailed (by rw [hload]) (by rw [hrun])
    | ok result => exact .done (by rw [hload]) (by rw [hrun])

/-- A refresh loads, runs and reports. -/
theorem outcome_refreshInPlace (host : Host) (session : Session K) :
    (refreshInPlace host session).1.outcome
      = (host.loadDelta session.root session.config session.snapshot).outcome.bind fun loaded =>
          (session.suite.run loaded.delta).outcome.map fun result =>
            ⟨result.report, loaded.failures⟩ := by
  have h := refreshed host session
  generalize (refreshInPlace host session).1.outcome = outcome at h ⊢
  generalize (refreshInPlace host session).2 = left at h
  cases h with
  | loadFailed hload => rw [hload]; rfl
  | runFailed hload hrun => simp only [hload, hrun, Except.bind, Except.map]
  | done hload hrun => simp only [hload, hrun, Except.bind, Except.map]

/-- **A refresh that fails leaves the session as it was.** -/
theorem refreshInPlace_of_error {host : Host} {session : Session K} {fault : Fault}
    (h : (refreshInPlace host session).1.outcome = .error fault) :
    (refreshInPlace host session).2 = session := by
  have hrefreshed := refreshed host session
  rw [h] at hrefreshed
  generalize (refreshInPlace host session).2 = left at hrefreshed ⊢
  cases hrefreshed with
  | loadFailed _ => rfl
  | runFailed _ _ => rfl

/-! ## Refreshes one after the other -/

/-- The session of that directory and configuration has a suite of the reviews that is in step with
    the project, and a snapshot that mirrors the project. -/
structure Follows (root : List String) (config : Config) (reviews : List (AnyReview Fault K))
    (texts : Set String) (session : Session K) (project : Project) : Prop where
  root : session.root = root
  config : session.config = config
  suite : Suite.InStep reviews session.suite project
  snapshot : session.snapshot.Mirrors texts project
  filed : project.WellFiled

variable {root : List String} {config : Config} {reviews : List (AnyReview Fault K)}
  {texts : Set String} {host : Host} {session opened : Session K} {project : Project}

/-- A session that is opened follows the empty project and has no snapshot. -/
theorem start_follows (h : start root reviews config = .ok opened) (texts : Set String) :
    opened.snapshot = {} ∧ ∃ silenced, Follows root config silenced texts opened {} := by
  obtain ⟨patterns, -, h⟩ := bind_eq_ok.1 h
  obtain ⟨options, -, h⟩ := bind_eq_ok.1 h
  obtain ⟨suite, hsuite, h⟩ := bind_eq_ok.1 h
  obtain rfl := Except.ok.inj h
  rw [mapError_eq_ok] at hsuite
  exact ⟨rfl, _, rfl, rfl, Suite.InStep.start hsuite, Snapshot.Mirrors.empty texts,
    Project.WellFiled.empty⟩

section Following

variable (h : Follows root config reviews texts session project)
  (hdigests : Set.InjOn contentDigest texts)
  (htexts : ∀ path text, host.textAt root path = some text → text ∈ texts)

include h hdigests htexts

/-- A refresh leaves a session that follows a project. -/
theorem Follows.refresh :
    ∃ next, Follows root config reviews texts (refreshInPlace host session).2 next := by
  have hrefreshed := refreshed host session
  generalize (refreshInPlace host session).1.outcome = outcome at hrefreshed
  generalize (refreshInPlace host session).2 = left at hrefreshed ⊢
  cases hrefreshed with
  | loadFailed _ => exact ⟨project, h⟩
  | runFailed _ _ => exact ⟨project, h⟩
  | @done loaded result hload hrun =>
    rw [h.root, h.config] at hload
    exact ⟨project.apply loaded.delta, h.root, h.config, h.suite.next hrun,
      h.snapshot.next hdigests htexts hload, h.filed.apply loaded.delta⟩

/-- **A refresh of a session that follows a project ends like a first refresh.** -/
theorem Follows.outcome_eq (hopened : Follows root config reviews texts opened {})
    (hnew : opened.snapshot = {}) :
    (refreshInPlace host session).1.outcome = (refreshInPlace host opened).1.outcome := by
  have hload := h.snapshot.load_agree hdigests htexts config
  rw [outcome_refreshInPlace, outcome_refreshInPlace, h.root, h.config, hopened.root,
    hopened.config, hnew]
  refine hload.bind_eq ?_
  rintro loaded first ⟨-, hfailures, hsame⟩
  -- First runs over the two projects receive the same delta, so the suites report the same.
  have hproject := hsame.toDelta_eq (h.filed.apply _) (hopened.filed.apply _)
  have hreports : (session.suite.run loaded.delta).outcome.map SuiteResult.report
      = (opened.suite.run first.delta).outcome.map SuiteResult.report := by
    rw [h.suite.outcome_report, hopened.suite.outcome_report, Suite.reportAlone_congr hproject]
  calc (session.suite.run loaded.delta).outcome.map
        (fun result => SessionResult.mk result.report loaded.failures)
      = ((session.suite.run loaded.delta).outcome.map SuiteResult.report).map
          (SessionResult.mk · loaded.failures) := by rw [map_map]
    _ = ((opened.suite.run first.delta).outcome.map SuiteResult.report).map
          (SessionResult.mk · first.failures) := by rw [hreports, hfailures]
    _ = (opened.suite.run first.delta).outcome.map
          (fun result => SessionResult.mk result.report first.failures) := by rw [map_map]

end Following

/-- A session after refreshes one after the other, whether they fail or not. -/
def refreshAll (hosts : List Host) (session : Session K) : Session K :=
  hosts.foldl (fun session host => (refreshInPlace host session).2) session

theorem Follows.refreshAll {hosts : List Host}
    (h : Follows root config reviews texts session project)
    (hdigests : Set.InjOn contentDigest texts) (htexts : Host.occurring root hosts ⊆ texts) :
    ∃ next, Follows root config reviews texts (refreshAll hosts session) next := by
  induction hosts generalizing session project with
  | nil => exact ⟨project, h⟩
  | cons host rest ih =>
    have hhost : ∀ path text, host.textAt root path = some text → text ∈ texts :=
      fun path text htext => htexts ⟨host, List.mem_cons_self, path, htext⟩
    obtain ⟨next, hnext⟩ := h.refresh hdigests hhost
    refine ih hnext ?_
    rintro text ⟨other, hother, htext⟩
    exact htexts ⟨other, List.mem_cons_of_mem _ hother, htext⟩

/-- **A session that goes on reports what a new session reports.** After refreshes of a session that
    was opened, one more refresh leaves the session as it was if it fails; and it ends like the
    first refresh of the session, with the same failure or with the same report and the same modules
    that do not parse, while different texts have different digests. -/
theorem refresh_like_new_session (root : List String) (reviews : List (AnyReview Fault K))
    (config : Config) (opened : Session K) (hopened : start root reviews config = .ok opened)
    (hosts : List Host) (host : Host)
    (hdigests : Set.InjOn contentDigest (Host.occurring root (hosts ++ [host]))) :
    let session := refreshAll hosts opened
    (∀ fault, (refreshInPlace host session).1.outcome = .error fault →
      (refreshInPlace host session).2 = session) ∧
    (refreshInPlace host session).1.outcome = (refreshInPlace host opened).1.outcome := by
  intro session
  refine ⟨fun fault => refreshInPlace_of_error, ?_⟩
  obtain ⟨hnew, silenced, hstart⟩ := start_follows hopened (Host.occurring root (hosts ++ [host]))
  have hhosts : Host.occurring root hosts ⊆ Host.occurring root (hosts ++ [host]) := by
    rintro text ⟨other, hother, htext⟩
    exact ⟨other, List.mem_append_left _ hother, htext⟩
  obtain ⟨project, hsession⟩ := hstart.refreshAll hdigests hhosts
  have hhost : ∀ path text, host.textAt root path = some text →
      text ∈ Host.occurring root (hosts ++ [host]) :=
    fun path text htext => ⟨host, by simp, path, htext⟩
  exact hsession.outcome_eq hdigests hhost hstart hnew

/-- A module that is edited between refreshes, the second of which fails: the third goes on as if it
    had not been. -/
theorem refresh_like_new_session_edited :
    let review : Review Fault (List Mark) :=
      { markerReview {} with
        report := fun marks =>
          if 1 < marks.length then .error (.callback "too many") else (markerReview {}).report marks }
    let reviews : List (AnyReview Fault fun _ : Unit => List Mark) := [⟨(), review⟩]
    let config : Config := [("module_patterns", .texts ["*.py"])]
    let before := [Host.singleFile "a.py" "good = 1\n", Host.singleFile "a.py" "bad = bad\n"]
    let now := Host.singleFile "a.py" "bad = 1\n"
    ∃ opened, start [] reviews config = .ok opened ∧
      (refreshInPlace now (refreshAll before opened)).1.outcome.map
        (fun result => ((refreshAll before opened).runs, result.report.keys))
        = .ok (1, ["a.py"]) ∧
      (refreshInPlace now (refreshAll before opened)).1.outcome
        = (refreshInPlace now opened).1.outcome := by
  intro review reviews config before now
  have hrun : ((start [] reviews config).bind fun opened =>
      (refreshInPlace now (refreshAll before opened)).1.outcome.map fun result =>
        ((refreshAll before opened).runs, result.report.keys)).toOption = some (1, ["a.py"]) := by
    decide +kernel
  obtain ⟨opened, hopened, hreport⟩ := bind_eq_ok.1 (toOption_eq_some.1 hrun)
  have hread : ∀ text ∈ ["good = 1\n", "bad = bad\n", "bad = 1\n"],
      readText (encodeUtf8 text) = .ok text := by
    simp only [List.mem_cons, List.not_mem_nil, or_false, forall_eq_or_imp, forall_eq]
    exact ⟨rfl, rfl, rfl⟩
  have hdigests : Set.InjOn contentDigest (Host.occurring [] (before ++ [now])) :=
    Host.injOn_singleFiles [] "a.py" hread (by decide +kernel)
  have hnew := refresh_like_new_session [] reviews config opened hopened before now hdigests
  exact ⟨opened, hopened, hreport, hnew.2⟩

end Session

end ProjectReview
