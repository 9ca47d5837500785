import ProjectReview.Command.Action

set_option autoImplicit false

/-! # What a refresh prints

`Journaled.All p x` says that every event of `x` satisfies `p`. It goes through computations one
after the other (`All.bind`), so it is shown of each function from what is shown of those it calls:
inspecting, updating and reporting print nothing (`Suite.run_printsNothing`), and a load prints only
warnings about source directories outside of the project (`Host.loadDelta_quiet`). So does a
refresh, which is a load and a run (`Session.refresh_quiet`). A command that refreshes its session
then prints the files that could not be parsed, and nothing else (`Session.forall_mem_opening`).

All of these are yellow lines, which are told apart by their text (`yellowLine_inj`). -/

namespace ProjectReview

/-- The event is a line that is printed. -/
def Event.isPrinted : Event → Bool
  | .printed .. => true
  | _ => false

/-- A yellow line on the error stream. -/
def yellowLine (colors : Bool) (text : String) : Event :=
  .printed .err (paint colors .yellow text ++ "\n")

theorem yellowLine_inj {colors : Bool} {a b : String} :
    yellowLine colors a = yellowLine colors b ↔ a = b := by
  cases colors <;> simp [yellowLine, paint, String.ext_iff]

/-- The warning about a source directory outside of the project. -/
def sourceWarning (colors : Bool) (entry : String) : Event :=
  yellowLine colors
    ("  WARNING: " ++ ("skipping source dir " ++ quoted entry ++ ": outside the project root"))

/-- An event that is not printed, or the warning about a source directory. -/
def Event.Quiet (colors : Bool) (event : Event) : Prop :=
  event.isPrinted = false ∨ ∃ entry, event = sourceWarning colors entry

/-! ## Events along a computation -/

namespace Journaled

variable {ε α β : Type} {p q : Event → Prop} {x : Journaled ε α} {f : α → Journaled ε β}

/-- Every event satisfies a predicate. -/
def All (p : Event → Prop) (x : Journaled ε α) : Prop :=
  ∀ event ∈ x.events, p event

theorem all_pure (a : α) : (pure a : Journaled ε α).All p := by
  simp [All]

theorem all_ofExcept (outcome : Except ε α) : (ofExcept outcome).All p := by
  simp [All]

theorem all_fail (fault : ε) : (fail fault : Journaled ε α).All p := by
  simp [All, fail]

theorem all_note {event : Event} (h : p event) : (note event : Journaled ε Unit).All p := by
  simpa [All] using h

theorem All.mono (h : x.All p) (hpq : ∀ event, p event → q event) : x.All q :=
  fun event hevent => hpq event (h event hevent)

/-- What holds of the events of two computations holds of one after the other. -/
theorem All.bind (hx : x.All p) (hf : ∀ a, (f a).All p) : (x >>= f).All p := by
  intro event hevent
  rw [events_bind, List.mem_append] at hevent
  rcases hevent with hfirst | hsecond
  · exact hx event hfirst
  · split at hsecond
    · next a _ => exact hf a event hsecond
    · cases hsecond

theorem all_mapM {xs : List α} {f : α → Journaled ε β} (hf : ∀ a ∈ xs, (f a).All p) :
    (xs.mapM f).All p := by
  induction xs with
  | nil => exact all_pure []
  | cons a rest ih =>
    rw [List.mapM_cons]
    obtain ⟨ha, hrest⟩ := List.forall_mem_cons.1 hf
    exact ha.bind fun b => (ih hrest).bind fun bs => all_pure _

end Journaled

open Journaled

/-! ## Runs of reviews -/

/-- Nothing is printed. -/
def Journaled.PrintsNothing {ε α : Type} (x : Journaled ε α) : Prop :=
  x.All fun event => event.isPrinted = false

theorem Journaled.PrintsNothing.bind {ε α β : Type} {x : Journaled ε α} {f : α → Journaled ε β}
    (hx : x.PrintsNothing) (hf : ∀ a, (f a).PrintsNothing) : (x >>= f).PrintsNothing :=
  All.bind hx hf

/-- A note that is not printed, in front of something that prints nothing. -/
theorem Journaled.PrintsNothing.note_bind {ε α : Type} {event : Event} {x : Journaled ε α}
    (hx : x.PrintsNothing) (h : event.isPrinted = false := by rfl) :
    (note event >>= fun _ => x).PrintsNothing :=
  All.bind (all_note h) fun _ => hx

section Runs

variable {ε K : Type}

theorem extractFrom_printsNothing (review : String) (merge : K → K → Except ε K) (part : Part)
    (sofar : Option K) (inspectors : List (Nat × Inspector ε K)) :
    (extractFrom review merge part sofar inspectors).PrintsNothing := by
  induction inspectors generalizing sofar with
  | nil => exact all_pure sofar
  | cons numbered rest ih =>
    refine PrintsNothing.note_bind ?_
    exact PrintsNothing.bind (all_ofExcept _) fun _ => PrintsNothing.bind (all_ofExcept _) ih

theorem Review.extract_printsNothing (review : Review ε K) (part : Part) :
    (review.extract part).PrintsNothing :=
  extractFrom_printsNothing _ _ part none _

theorem inspectAll_printsNothing (review : Review ε K) (parts : List (String × Part)) :
    (inspectAll review parts).PrintsNothing := by
  induction parts with
  | nil => exact all_pure []
  | cons entry rest ih =>
    exact (review.extract_printsNothing entry.2).bind fun _ => ih.bind fun _ => all_pure _

theorem inspectPooled_printsNothing (review : Review ε K) (parts : List (String × Part)) :
    (inspectPooled review parts).PrintsNothing := by
  induction parts with
  | nil => exact all_pure []
  | cons entry rest ih =>
    intro event hevent
    rcases List.mem_append.1 hevent with hfirst | hrest
    · exact review.extract_printsNothing entry.2 event hfirst
    · exact ih event hrest

theorem updateFiles_printsNothing (review : Review ε K) (pooled : Bool) (previous : Assoc K)
    (changed : List (String × Part)) (removed : List String) :
    (updateFiles review pooled previous changed removed).PrintsNothing := by
  refine PrintsNothing.bind ?_ fun _ => all_pure _
  unfold inspectParts
  split
  · exact inspectPooled_printsNothing review _
  · exact inspectAll_printsNothing review _

theorem Cache.update_printsNothing (review : Review ε K) (pooled : Bool) (cache : Cache K)
    (delta : Delta) : (cache.update review pooled delta).PrintsNothing := by
  have hmanifest : (manifestKnowledge review delta.manifest).PrintsNothing := by
    cases delta.manifest with
    | none => exact all_pure none
    | some manifest => exact review.extract_printsNothing _
  exact hmanifest.bind fun _ => (review.extract_printsNothing _).bind fun _ =>
    (updateFiles_printsNothing _ _ _ _ _).bind fun _ =>
      (updateFiles_printsNothing _ _ _ _ _).bind fun _ => .note_bind (all_pure _)

theorem Review.buildReport_printsNothing (review : Review ε K) (knowledge : K) :
    (review.buildReport knowledge).PrintsNothing := by
  refine PrintsNothing.bind (all_ofExcept _) fun findings => ?_
  dsimp only
  split
  · exact .note_bind (all_pure _)
  · exact all_pure _

theorem Engine.run_printsNothing (engine : Engine ε K) (delta : Delta) :
    (engine.run delta).PrintsNothing := by
  refine (engine.cache.update_printsNothing _ _ delta).bind fun cache => ?_
  refine PrintsNothing.bind (all_ofExcept _) fun known => ?_
  cases known with
  | none => exact .note_bind (all_pure _)
  | some knowledge =>
    exact (engine.review.buildReport_printsNothing knowledge).bind fun _ =>
      .note_bind (all_pure _)

/-- **Runs of reviews print nothing.** -/
theorem Suite.run_printsNothing {ι : Type} {K : ι → Type} (suite : Suite ε K) (delta : Delta) :
    (suite.run delta).PrintsNothing := by
  refine PrintsNothing.bind (all_mapM fun engine _ => ?_) fun _ => all_pure _
  exact (engine.2.run_printsNothing delta).bind fun _ => all_pure _

end Runs

/-! ## Loads -/

theorem Journaled.PrintsNothing.quiet {ε α : Type} {x : Journaled ε α} (h : x.PrintsNothing)
    (colors : Bool) : x.All (Event.Quiet colors) :=
  h.mono fun _ => Or.inl

namespace Host

variable (host : Host) (root : List String)

theorem readFile_printsNothing (path : String) : (host.readFile root path).PrintsNothing := by
  unfold readFile
  dsimp only
  split
  · exact all_pure _
  · exact .note_bind (all_pure _)

/-- Only a source directory outside of the project is warned about. -/
theorem sourceDirectories_quiet (entries : List Value) :
    (host.sourceDirectories root entries).All (Event.Quiet host.colors) := by
  induction entries with
  | nil => exact all_pure []
  | cons value rest ih =>
    cases value with
    | text entry =>
      refine (all_ofExcept _).bind fun place => ?_
      split
      · exact ih
      · split
        · exact Journaled.All.bind (all_note (Or.inr ⟨entry, rfl⟩)) fun _ => ih
        · exact ih.bind fun _ => all_pure _
    | _ => exact all_fail _

theorem searchDirectories_printsNothing (patterns exclusions : List Value)
    (directories : List SourceDirectory) :
    (host.searchDirectories patterns exclusions directories).PrintsNothing := by
  have hsearch (directory : SourceDirectory) :
      (searchWith [] host.files directory.place patterns exclusions).PrintsNothing := by
    refine PrintsNothing.bind (all_ofExcept _) fun place => ?_
    dsimp only
    split
    · exact PrintsNothing.bind (all_pure _) fun _ => .note_bind (all_pure _)
    · exact PrintsNothing.bind (all_ofExcept _) fun _ => .note_bind (all_pure _)
  induction directories with
  | nil => exact all_pure []
  | cons directory rest ih => exact (hsearch directory).bind fun _ => ih.bind fun _ => all_pure _

theorem discover_printsNothing (directories : List SourceDirectory) (config : Config)
    (key : String) : (host.discover directories config key).PrintsNothing := by
  unfold discover
  split
  · exact all_pure []
  · exact PrintsNothing.bind (all_ofExcept _) fun _ => PrintsNothing.bind (all_ofExcept _) fun _ =>
      (host.searchDirectories_printsNothing _ _ _).bind fun _ => all_pure _

theorem loadManifest_printsNothing : (host.loadManifest root).PrintsNothing := by
  unfold loadManifest
  split
  · exact all_pure none
  · refine (host.readFile_printsNothing root manifestName).bind fun source => ?_
    cases source with
    | none => exact all_pure none
    | some source =>
      dsimp only
      split
      · exact all_pure _
      · exact all_fail _
      · exact .note_bind (all_pure _)

theorem loadDependencies_printsNothing (manifest : Option Manifest) :
    (host.loadDependencies manifest).PrintsNothing := by
  have hinstalled (requirements : List Value) :
      (host.installedDependencies requirements).PrintsNothing := by
    induction requirements with
    | nil => exact all_pure []
    | cons requirement rest ih =>
      unfold installedDependencies
      split
      · exact ih
      · split
        · exact .note_bind ih
        · exact PrintsNothing.bind (all_ofExcept _) fun _ => ih.bind fun _ => all_pure _
  cases manifest with
  | none => exact all_pure []
  | some manifest => exact PrintsNothing.bind (all_ofExcept _) hinstalled

theorem loadModules_printsNothing (previous : Assoc String) (paths : List String) :
    (host.loadModules root previous paths).PrintsNothing := by
  induction paths with
  | nil => exact all_pure _
  | cons path rest ih =>
    refine (host.readFile_printsNothing root path).bind fun source => ?_
    cases source with
    | none => exact ih
    | some source =>
      dsimp only
      split
      · exact ih.bind fun _ => all_pure _
      · split
        · exact ih.bind fun _ => all_pure _
        · exact ih.bind fun _ => all_pure _

theorem loadExtraFiles_printsNothing (previous : Assoc String) (paths : List String) :
    (host.loadExtraFiles root previous paths).PrintsNothing := by
  induction paths with
  | nil => exact all_pure _
  | cons path rest ih =>
    refine (host.readFile_printsNothing root path).bind fun content => ?_
    cases content with
    | none => exact ih
    | some content => exact ih.bind fun _ => all_pure _

/-- **A load prints only warnings about source directories.** -/
theorem loadDelta_quiet (config : Config) (previous : Snapshot) :
    (host.loadDelta root config previous).All (Event.Quiet host.colors) := by
  have hdiscover (directories : List SourceDirectory) (key : String) :=
    (host.discover_printsNothing directories config key).quiet host.colors
  have hnote {event : Event} (h : event.isPrinted = false) :
      (note event : Journaled Fault Unit).All (Event.Quiet host.colors) := all_note (Or.inl h)
  exact (hnote rfl).bind fun _ => (all_ofExcept _).bind fun entries =>
    (host.sourceDirectories_quiet root entries).bind fun directories =>
    ((host.loadManifest_printsNothing root).quiet _).bind fun manifest =>
    (hdiscover directories _).bind fun modulePaths =>
    ((host.loadModules_printsNothing root _ modulePaths).quiet _).bind fun _ =>
    (hdiscover directories _).bind fun _ =>
    ((host.loadExtraFiles_printsNothing root _ _).quiet _).bind fun _ =>
    ((host.loadDependencies_printsNothing manifest).quiet _).bind fun _ =>
    (hnote rfl).bind fun _ => all_pure _

end Host

/-! ## Refreshes -/

/-- What holds of the events of two actions holds of one after the other. -/
theorem Action.all_bind {σ α β : Type} {p : Event → Prop} {x : Action σ α} {f : α → Action σ β}
    {state : σ} (hx : (x state).1.All p) (hf : ∀ a next, (f a next).1.All p) :
    ((x >>= f) state).1.All p := by
  show (Action.bind x f state).1.All p
  rw [Action.bind]
  rcases hrun : x state with ⟨⟨events, outcome⟩, next⟩
  rw [hrun] at hx
  cases outcome with
  | error fault => exact hx
  | ok a =>
    intro event hevent
    rcases List.mem_append.1 hevent with hfirst | hsecond
    · exact hx event hfirst
    · exact hf a next event hsecond

/-- **A refresh prints only warnings about source directories.** -/
theorem Session.refresh_quiet {ι : Type} {K : ι → Type} (session : Session K) (host : Host) :
    (session.refresh host).All (Event.Quiet host.colors) := by
  have hassign (change : Session K → Session K) (state : Session K) :
      (Action.assign change state).1.All (Event.Quiet host.colors) := all_pure ()
  have hrefresh : (Session.refreshInPlace host session).1.All (Event.Quiet host.colors) :=
    Action.all_bind (host.loadDelta_quiet _ _ _) fun loaded next =>
      Action.all_bind ((next.suite.run_printsNothing loaded.delta).quiet _) fun _ _ =>
        Action.all_bind (hassign _ _) fun _ _ => Action.all_bind (hassign _ _) fun _ _ =>
          Action.all_bind (hassign _ _) fun _ _ => all_pure _
  exact hrefresh

theorem ParseFault.message_eq (failure : ParseFault) :
    ∃ rest, failure.message = "cannot parse " ++ rest := by
  delta ParseFault.message
  exact ⟨_, by rw [String.append_assoc, String.append_assoc]⟩

theorem events_printFailures (colors : Bool) (failures : List ParseFault) :
    (printFailures colors failures).events
      = failures.map fun failure => yellowLine colors ("  " ++ failure.message) := by
  induction failures with
  | nil => rfl
  | cons failure rest ih => exact congrArg (List.cons _) ih

/-- What holds of quiet events and of the lines about files that cannot be parsed holds of all that
    a command tells when it refreshes its session. -/
theorem Session.forall_mem_opening {ι : Type} {K : ι → Type} (session : Session K) (host : Host)
    (failures : List ParseFault) {p : Event → Prop}
    (hquiet : ∀ event, Event.Quiet host.colors event → p event)
    (hfailure : ∀ failure : ParseFault, p (yellowLine host.colors ("  " ++ failure.message))) :
    ∀ event ∈ (session.refresh host).events ++ (printFailures host.colors failures).events,
      p event := by
  intro event hevent
  rcases List.mem_append.1 hevent with hrefresh | hprinted
  · exact hquiet event (session.refresh_quiet host event hrefresh)
  · rw [events_printFailures] at hprinted
    obtain ⟨failure, -, rfl⟩ := List.mem_map.1 hprinted
    exact hfailure failure

end ProjectReview
