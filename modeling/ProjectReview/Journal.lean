import ProjectReview.Project.Part

set_option autoImplicit false

/-! # Journals

The library computes values and never acts on the outside world. What a computation does on its way
(the parts it inspects, the files it passes over, the lines it prints) is kept as a list of
`Event`s. A `Journaled ε α` is the outcome of a computation, a value or a failure, together with its
events; a failure keeps the events before it.

`Event.logLine` is the text an event has in a log. The equations `outcome_bind` and `events_bind`
say how the two sides of a journaled computation come about. -/

namespace ProjectReview

/-- The two streams a command prints to. -/
inductive Stream where
  | out
  | err
deriving DecidableEq, Repr

/-- A search for files: where, for which patterns, without which paths. -/
structure SearchQuery where
  root : String
  patterns : List Value
  exclusions : List Value
deriving BEq, Repr

/-- One thing that happened during a computation. -/
inductive Event where
  /-- A review's inspector, given by its place among those of its kind, looked at a part. -/
  | inspected (review : String) (place : Nat) (part : Part)
  /-- A review's cache was brought up to date. -/
  | cacheUpdated (review : String) (recomputed reused dropped : Nat)
  /-- A review knows nothing, so its cache was emptied. -/
  | cacheReset (review : String)
  /-- A review's findings for some files were left out of its report. -/
  | pathsHidden (review : String) (count : Nat)
  /-- A review reported. -/
  | reported (review : String) (findings files : Nat)
  /-- A batch of fixes was applied to a source. -/
  | fixesApplied (count : Nat)
  /-- A file could not be read and was passed over. -/
  | fileSkipped (path reason : String)
  /-- The manifest is not well formed and was passed over. -/
  | manifestSkipped (reason : String)
  /-- A dependency is not installed and was passed over. -/
  | dependencySkipped (name reason : String)
  /-- The configuration could not be read and was passed over. -/
  | configSkipped (path reason : String)
  /-- A review could not be loaded. -/
  | pluginFailed (spec reason : String)
  /-- A project was loaded. -/
  | loaded (root : String) (modules removedModules extraFiles removedExtraFiles : Nat)
  /-- A fix session came to its end. -/
  | fixesEnded (applied runs : Nat)
  /-- The results of earlier searches were forgotten. -/
  | searchesForgotten
  /-- A search was carried out. -/
  | searched (query : SearchQuery) (found : List String)
  /-- Text was printed. -/
  | printed (stream : Stream) (text : String)
deriving Repr

/-- A line of a log: the part of the program that wrote it and what it says. -/
structure LogLine where
  source : String
  text : String
deriving DecidableEq, Repr

namespace Event

/-- The line an event leaves in a log, for those that leave one. -/
def logLine : Event → Option LogLine
  | cacheUpdated review recomputed reused dropped =>
    some ⟨"reviewkit.engine.cache", "Review " ++ review ++ ": " ++ toString recomputed ++
      " part(s) recomputed, " ++ toString reused ++ " reused, " ++ toString dropped ++ " dropped"⟩
  | cacheReset review =>
    some ⟨"reviewkit.engine.runner", "Review " ++ review ++ ": no knowledge, resetting cache"⟩
  | pathsHidden review count =>
    some ⟨"reviewkit.engine.report",
      "Review " ++ review ++ ": hid errors for " ++ toString count ++ " ignored path(s)"⟩
  | reported review findings files =>
    some ⟨"reviewkit.engine.runner", "Review " ++ review ++ ": " ++ toString findings ++
      " error(s) in " ++ toString files ++ " file(s)"⟩
  | fixesApplied count =>
    some ⟨"reviewkit.core.fixes", "Applied " ++ toString count ++ " fix(es)"⟩
  | fileSkipped path reason =>
    some ⟨"reviewkit.host.snapshot", "Skipped unreadable file " ++ path ++ ": " ++ reason⟩
  | manifestSkipped reason =>
    some ⟨"reviewkit.host.snapshot", "Skipped invalid pyproject.toml: " ++ reason⟩
  | dependencySkipped name reason =>
    some ⟨"reviewkit.host.snapshot", "Skipped uninstalled dependency " ++ name ++ ": " ++ reason⟩
  | configSkipped path reason =>
    some ⟨"reviewkit.core.config", "Skipped unreadable config " ++ path ++ ": " ++ reason⟩
  | pluginFailed spec reason =>
    some ⟨"reviewkit.plugins", "Review plugin load failed for " ++ spec ++ ": " ++ reason⟩
  | loaded root modules removedModules extraFiles removedExtraFiles =>
    some ⟨"reviewkit.host.snapshot", "Loaded delta from " ++ root ++ ": " ++ toString modules ++
      " module(s) changed, " ++ toString removedModules ++ " removed, " ++ toString extraFiles ++
      " extra file(s) changed, " ++ toString removedExtraFiles ++ " removed"⟩
  | fixesEnded applied runs =>
    some ⟨"reviewkit.commands.fix_cmd", "Fix session: " ++ toString applied ++
      " fix(es) applied over " ++ toString runs ++ " run(s)"⟩
  | inspected .. | searchesForgotten | searched .. | printed .. => none

end Event

/-- The lines that events leave in a log. -/
def logLines (events : List Event) : List LogLine :=
  events.filterMap Event.logLine

/-- The outcome of a computation and the events on its way. -/
structure Journaled (ε α : Type) where
  events : List Event
  outcome : Except ε α

namespace Journaled

variable {ε ε' α β : Type}

/-- A value without events. -/
protected def pure (a : α) : Journaled ε α :=
  ⟨[], .ok a⟩

/-- One computation after another; a failure of the first is the failure of both. -/
protected def bind (x : Journaled ε α) (f : α → Journaled ε β) : Journaled ε β :=
  match x.outcome with
  | .ok a => ⟨x.events ++ (f a).events, (f a).outcome⟩
  | .error e => ⟨x.events, .error e⟩

instance : Monad (Journaled ε) where
  pure := Journaled.pure
  bind := Journaled.bind

/-- A single event. -/
def note (event : Event) : Journaled ε Unit :=
  ⟨[event], .ok ()⟩

/-- A failure. -/
def fail (e : ε) : Journaled ε α :=
  ⟨[], .error e⟩

/-- An outcome without events. -/
def ofExcept (x : Except ε α) : Journaled ε α :=
  ⟨[], x⟩

/-- The failures of a computation under another name. -/
def mapError (f : ε → ε') (x : Journaled ε α) : Journaled ε' α :=
  ⟨x.events, x.outcome.mapError f⟩

@[simp] theorem outcome_pure (a : α) : (pure a : Journaled ε α).outcome = .ok a := rfl

@[simp] theorem events_pure (a : α) : (pure a : Journaled ε α).events = [] := rfl

@[simp] theorem outcome_note (event : Event) : (note event : Journaled ε Unit).outcome = .ok () := rfl

@[simp] theorem events_note (event : Event) : (note event : Journaled ε Unit).events = [event] := rfl

@[simp] theorem outcome_ofExcept (x : Except ε α) : (ofExcept x).outcome = x := rfl

@[simp] theorem events_ofExcept (x : Except ε α) : (ofExcept x).events = [] := rfl

/-- The outcome of two computations depends on their outcomes alone. -/
@[simp] theorem outcome_bind (x : Journaled ε α) (f : α → Journaled ε β) :
    (x >>= f).outcome = x.outcome.bind fun a => (f a).outcome := by
  show (Journaled.bind x f).outcome = _
  unfold Journaled.bind
  cases x.outcome <;> rfl

/-- The events of two computations follow each other. -/
theorem events_bind (x : Journaled ε α) (f : α → Journaled ε β) :
    (x >>= f).events = x.events ++ match x.outcome with
      | .ok a => (f a).events
      | .error _ => [] := by
  show (Journaled.bind x f).events = _
  unfold Journaled.bind
  cases x.outcome <;> simp

instance : LawfulMonad (Journaled ε) := LawfulMonad.mk' _
  (fun x => by
    show Journaled.bind x (fun a => Journaled.pure (id a)) = x
    obtain ⟨events, outcome⟩ := x
    cases outcome <;> simp [Journaled.bind, Journaled.pure])
  (fun _ _ => rfl)
  (fun x f g => by
    show Journaled.bind (Journaled.bind x f) g = Journaled.bind x (fun a => Journaled.bind (f a) g)
    obtain ⟨events, outcome⟩ := x
    cases outcome with
    | error => rfl
    | ok a =>
      simp only [Journaled.bind]
      cases (f a).outcome <;> simp)

end Journaled

end ProjectReview
