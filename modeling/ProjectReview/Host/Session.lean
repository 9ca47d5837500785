import ProjectReview.Action
import ProjectReview.Config.Options
import ProjectReview.Engine.Suite
import ProjectReview.Host.Load

set_option autoImplicit false

/-! # Sessions

A `Session` keeps a suite of reviews in step with the files of a project: each `refresh` loads what
changed since the previous one and runs the suite on it. `refreshInPlace` is the refresh as an
action on the session, which assigns to it only when the load and the run are done, so a refresh
that fails leaves the session as it was. -/

namespace ProjectReview

section Ignoring

variable {K : Type}

/-- Whether the patterns of a configuration hide a path. -/
def hiddenBy (patterns : List Value) (path : String) : Except ShapeFault Bool :=
  anyValue (excludedBy path) patterns

/-- The review, silent also about what the patterns of a configuration exclude. A pattern that is
not a text makes a report fail as soon as a path is held against it. -/
def Review.ignoreValues (review : Review Fault K) (patterns : List Value) : Review Fault K :=
  let check (finding : Finding) : Except Fault Unit :=
    if review.ignores finding.path then .ok ()
    else match hiddenBy patterns finding.path with
      | .ok _ => .ok ()
      | .error fault => .error (.shape fault)
  if patterns.all fun pattern => pattern.text?.isSome then
    review.ignorePatterns (patterns.filterMap Value.text?)
  else
    { review with
      report := fun knowledge => do
        let findings ← review.report knowledge
        findings.forM check
        pure findings
      ignores := fun path => review.ignores path || (hiddenBy patterns path).toOption.getD false }

end Ignoring

section Sessions

variable {ι : Type}

/-- A project directory with its configuration, the suite that follows it, and what the latest load
left. -/
structure Session (K : ι → Type) where
  root : List String
  config : Config
  suite : Suite Fault K
  snapshot : Snapshot := {}
  runs : Nat := 0

/-- What a refresh gives. -/
structure SessionResult where
  report : Report
  failures : List ParseFault

variable {K : ι → Type}

/-- Opens a session. -/
def Session.start (root : List String) (reviews : List (AnyReview Fault K)) (config : Config) :
    Except Fault (Session K) := do
  let patterns ← ((config.valueAt "ignore" (.list [])).items).mapError Fault.shape
  let options ← (RunOptions.ofConfig config).mapError Fault.shape
  let suite ← (Suite.ofReviews
    (reviews.map fun review => ⟨review.1, review.2.ignoreValues patterns⟩) options).mapError
      Fault.duplicateNames
  pure { root, config, suite }

/-- Loads what changed, runs the suite on it, and then moves the session on. -/
def Session.refreshInPlace (host : Host) : Action (Session K) SessionResult := do
  let loaded ← Action.look fun session =>
    host.loadDelta session.root session.config session.snapshot
  let result ← Action.look fun session => session.suite.run loaded.delta
  Action.assign fun session => { session with suite := result.next }
  Action.assign fun session => { session with snapshot := loaded.snapshot }
  Action.assign fun session => { session with runs := session.runs + 1 }
  pure ⟨result.report, loaded.failures⟩

/-- Refreshes a session: the result, and the session as it goes on. -/
def Session.refresh (session : Session K) (host : Host) :
    Journaled Fault (SessionResult × Session K) :=
  let (run, left) := Session.refreshInPlace host session
  ⟨run.events, run.outcome.map fun result => (result, left)⟩

end Sessions

end ProjectReview
