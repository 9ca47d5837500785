import Mathlib.Data.Prod.Lex
import Mathlib.Order.WellFounded
import ProjectReview.Command.Fix
import ProjectReview.Proofs.Sessions

set_option autoImplicit false

/-! # The loop of fixes

The loop of the fix command is looked at one iteration at a time. `FixHead.iterate` is an iteration
by itself: it takes the first finding that is still to be tried and skips it, or writes its file and
refreshes the session. The passes of the command go through these iterations and nothing else
(`fixPasses_ends`).

Every iteration uses up a pass or a finding that was to be tried (`rank_lt`), so the loop ends. Its
session follows the project all along, and the result it works with is the one that a new session
gives for the files as they are (`Fresh.of_reaches`). Together this is the main result,
`loop_ends_fresh`. -/

namespace ProjectReview

section Loop

variable {ι : Type} {K : ι → Type}

/-! ## One iteration -/

/-- The findings of the latest result that are still to be tried. -/
def FixState.pending (state : FixState K) : List Finding :=
  state.result.report.fixable.filter fun finding => !state.skipped.contains finding.key

/-- The state with one more finding skipped. -/
def FixState.skip (state : FixState K) (finding : Finding) : FixState K :=
  { state with skipped := state.skipped ++ [finding.key] }

/-- The loop before an iteration: the files, and how the fixes stand. -/
structure FixHead {ι : Type} (K : ι → Type) where
  files : Node
  state : FixState K

/-- How an iteration ends. -/
inductive FixStep {ι : Type} (K : ι → Type) where
  /-- There is none: the passes are used up, or no finding is left to try. -/
  | stops
  /-- A finding is skipped. -/
  | skips (next : FixHead K)
  /-- A file was written and the session refreshed. -/
  | writes (next : FixHead K)
  /-- A fault ends the loop. -/
  | fails (fault : Fault) (left : Node)

namespace FixHead

/-- Tries a finding. -/
def tryFinding (environment : Environment) (dryRun : Bool) (head : FixHead K) (finding : Finding) :
    FixStep K :=
  match (fixedText head.files head.state.session.root finding).outcome with
  | .error fault =>
    if fault.isSkipped then .skips ⟨head.files, head.state.skip finding⟩
    else .fails fault head.files
  | .ok text =>
    if dryRun then .skips ⟨head.files, head.state.skip finding⟩
    else
      match head.files.safeWrite {} (finding.file head.state.session.root).parts
          (encodeUtf8 text) with
      | (written, .error fault) => .fails (.file fault) written
      | (written, .ok ()) =>
        match (head.state.session.refresh (environment.host written)).outcome with
        | .error fault => .fails fault written
        | .ok (result, session) =>
          .writes ⟨written,
            { session, result
              skipped := head.state.skipped
              applied := head.state.applied + 1 }⟩

/-- One iteration of the loop. -/
def iterate (environment : Environment) (dryRun : Bool) (limit : Int) (head : FixHead K) :
    FixStep K :=
  if limit ≤ head.state.applied then .stops
  else match head.state.pending with
    | [] => .stops
    | finding :: _ => head.tryFinding environment dryRun finding

variable {environment : Environment} {dryRun : Bool} {limit : Int} {head next start : FixHead K}
  {finding : Finding} {others : List Finding}

theorem iterate_of_pending (environment : Environment) (dryRun : Bool)
    (hbelow : (head.state.applied : Int) < limit)
    (hpending : head.state.pending = finding :: others) :
    head.iterate environment dryRun limit = head.tryFinding environment dryRun finding := by
  rw [iterate, if_neg (by omega), hpending]

/-- An iteration that does not stop tries the first pending finding, with a pass left. -/
theorem iterate_ne_stops (h : head.iterate environment dryRun limit ≠ .stops) :
    ∃ finding others, (head.state.applied : Int) < limit ∧ head.state.pending = finding :: others ∧
      head.iterate environment dryRun limit = head.tryFinding environment dryRun finding := by
  by_cases hbelow : (head.state.applied : Int) < limit
  · cases hpending : head.state.pending with
    | nil => exact absurd (by rw [iterate, if_neg (by omega), hpending]) h
    | cons finding others =>
      exact ⟨finding, others, hbelow, rfl, iterate_of_pending environment dryRun hbelow hpending⟩
  · exact absurd (if_pos (by omega)) h

/-- An iteration that skips leaves the files, the session and the result as they are. -/
theorem iterate_eq_skips (h : head.iterate environment dryRun limit = .skips next) :
    ∃ finding others, head.state.pending = finding :: others ∧
      next = ⟨head.files, head.state.skip finding⟩ := by
  obtain ⟨finding, others, -, hpending, htry⟩ := iterate_ne_stops (by rw [h]; exact nofun)
  rw [h, tryFinding] at htry
  refine ⟨finding, others, hpending, ?_⟩
  split at htry
  · split at htry
    · exact FixStep.skips.inj htry
    · cases htry
  · split at htry
    · exact FixStep.skips.inj htry
    · split at htry
      · cases htry
      · split at htry <;> cases htry

/-- What an iteration that writes has done: a pass was left, the first pending finding has fixes
    that apply, its file was written, and the session was refreshed on the files that resulted. -/
structure Wrote (environment : Environment) (dryRun : Bool) (limit : Int) (head next : FixHead K)
    (finding : Finding) (text : String) : Prop where
  wet : dryRun = false
  below : (head.state.applied : Int) < limit
  first : head.state.pending.head? = some finding
  fixed : (fixedText head.files head.state.session.root finding).outcome = .ok text
  write : head.files.safeWrite {} (finding.file head.state.session.root).parts (encodeUtf8 text)
    = (next.files, .ok ())
  refresh : (head.state.session.refresh (environment.host next.files)).outcome
    = .ok (next.state.result, next.state.session)
  applied : next.state.applied = head.state.applied + 1

theorem iterate_eq_writes (h : head.iterate environment dryRun limit = .writes next) :
    ∃ finding text, Wrote environment dryRun limit head next finding text := by
  obtain ⟨finding, others, hbelow, hpending, htry⟩ := iterate_ne_stops (by rw [h]; exact nofun)
  rw [h, tryFinding] at htry
  split at htry
  · split at htry <;> cases htry
  · next text htext =>
    split at htry
    · cases htry
    · next hwet =>
      split at htry
      · cases htry
      · next written hwrite =>
        split at htry
        · cases htry
        · next result session hrefresh =>
          obtain rfl := FixStep.writes.inj htry
          exact ⟨finding, text, Bool.eq_false_iff.2 hwet, hbelow, by rw [hpending]; rfl, htext,
            hwrite, hrefresh, rfl⟩

/-- The loop goes on from one head to another. -/
def GoesOn (environment : Environment) (dryRun : Bool) (limit : Int) (head next : FixHead K) :
    Prop :=
  head.iterate environment dryRun limit = .skips next ∨
    head.iterate environment dryRun limit = .writes next

/-! ## The loop ends -/

/-- The passes that are left, and then the findings that are still to be tried. -/
def rank (limit : Int) (head : FixHead K) : ℕ ×ₗ ℕ :=
  toLex ((limit - head.state.applied).toNat, head.state.pending.length)

theorem pending_skip (state : FixState K) (finding : Finding) :
    (state.skip finding).pending
      = state.pending.filter fun other => !decide (other.key = finding.key) := by
  simp only [FixState.pending, FixState.skip, List.filter_filter]
  congr 1
  funext other
  simp [Bool.and_comm]

theorem length_pending_skip {state : FixState K} {finding : Finding} {others : List Finding}
    (h : state.pending = finding :: others) :
    (state.skip finding).pending.length < state.pending.length := by
  rw [pending_skip, h, List.filter_cons_of_neg (by simp), List.length_cons]
  exact Nat.lt_succ_of_le (List.length_filter_le _ _)

/-- **An iteration uses up a pass, or a finding that was to be tried.** -/
theorem rank_lt (h : GoesOn environment dryRun limit head next) :
    next.rank limit < head.rank limit := by
  rw [rank, rank, Prod.Lex.toLex_lt_toLex]
  rcases h with hskips | hwrites
  · obtain ⟨finding, others, hpending, rfl⟩ := iterate_eq_skips hskips
    exact Or.inr ⟨rfl, length_pending_skip hpending⟩
  · obtain ⟨finding, text, hwrote⟩ := iterate_eq_writes hwrites
    have hbelow := hwrote.below
    have happlied := hwrote.applied
    exact Or.inl (by simp only; omega)

theorem wellFounded_goesOn (environment : Environment) (dryRun : Bool) (limit : Int) :
    WellFounded fun next head : FixHead K => GoesOn environment dryRun limit head next :=
  Subrelation.wf rank_lt (InvImage.wf (rank limit) wellFounded_lt)

/-! ## Runs of the loop -/

/-- The loop gets from one head to another and writes that many files on the way. -/
inductive Reaches (environment : Environment) (dryRun : Bool) (limit : Int) (start : FixHead K) :
    ℕ → FixHead K → Prop
  | refl : Reaches environment dryRun limit start 0 start
  | skip {writes : ℕ} {head next : FixHead K}
      (before : Reaches environment dryRun limit start writes head)
      (step : head.iterate environment dryRun limit = .skips next) :
      Reaches environment dryRun limit start writes next
  | write {writes : ℕ} {head next : FixHead K}
      (before : Reaches environment dryRun limit start writes head)
      (step : head.iterate environment dryRun limit = .writes next) :
      Reaches environment dryRun limit start (writes + 1) next

theorem Reaches.trans {first second : ℕ} (h : Reaches environment dryRun limit start first head)
    (hnext : Reaches environment dryRun limit head second next) :
    Reaches environment dryRun limit start (first + second) next := by
  induction hnext with
  | refl => exact h
  | skip _ hstep ih => exact .skip ih hstep
  | write _ hstep ih => exact .write ih hstep

/-- A loop that starts with no fix applied writes at most as many files as there are passes. -/
theorem Reaches.writes_le {writes : ℕ} (h : Reaches environment dryRun limit start writes head)
    (hstart : start.state.applied = 0) :
    head.state.applied = writes ∧ writes ≤ limit.toNat := by
  induction h with
  | refl => exact ⟨hstart, Nat.zero_le _⟩
  | skip _ hstep ih =>
    obtain ⟨finding, others, -, rfl⟩ := iterate_eq_skips hstep
    exact ih
  | write _ hstep ih =>
    obtain ⟨finding, text, hwrote⟩ := iterate_eq_writes hstep
    have hbelow := hwrote.below
    have happlied := hwrote.applied
    omega

/-! ## The passes of the command -/

/-- How trying the pending findings ends, once those that are skipped have been told of. -/
inductive Tried (dryRun : Bool) (files : Node) (root : List String) (skipped : List FindingKey) :
    List Finding → Except Fault (List FindingKey × Bool) × Node → Prop
  | none : Tried dryRun files root skipped [] (.ok (skipped, false), files)
  | fixed {finding : Finding} {others : List Finding} {text : String} {written : Node}
      (wet : dryRun = false) (fixes : (fixedText files root finding).outcome = .ok text)
      (write : files.safeWrite {} (finding.file root).parts (encodeUtf8 text) = (written, .ok ())) :
      Tried dryRun files root skipped (finding :: others) (.ok (skipped, true), written)
  | refused {finding : Finding} {others : List Finding} {fault : Fault}
      (fixes : (fixedText files root finding).outcome = .error fault)
      (escapes : fault.isSkipped = false) :
      Tried dryRun files root skipped (finding :: others) (.error fault, files)
  | unwritten {finding : Finding} {others : List Finding} {text : String} {written : Node}
      {fault : FileFault} (wet : dryRun = false)
      (fixes : (fixedText files root finding).outcome = .ok text)
      (write : files.safeWrite {} (finding.file root).parts (encodeUtf8 text)
        = (written, .error fault)) :
      Tried dryRun files root skipped (finding :: others) (.error (.file fault), written)

theorem result_write (parts : List String) (content : Bytes) (files : Node) :
    (FileAction.write parts content).result files
      = ((files.safeWrite {} parts content).2.mapError Fault.file,
          (files.safeWrite {} parts content).1) := rfl

/-- Trying findings goes through iterations that skip, up to the first finding that is not skipped.
-/
theorem tryFixes_tried (environment : Environment) (dryRun : Bool) (files : Node)
    (findings : List Finding) (state : FixState K) (hbelow : (state.applied : Int) < limit)
    (hpending : state.pending
      = findings.filter fun finding => !state.skipped.contains finding.key) :
    ∃ skipped, Reaches environment dryRun limit ⟨files, state⟩ 0 ⟨files, { state with skipped }⟩ ∧
      Tried dryRun files state.session.root skipped
        ({ state with skipped } : FixState K).pending
        ((tryFixes environment dryRun state.session.root state.skipped findings).result files) := by
  induction findings generalizing state with
  | nil =>
    refine ⟨state.skipped, .refl, ?_⟩
    rw [hpending]
    exact .none
  | cons finding rest ih =>
    rw [tryFixes]
    by_cases hskipped : state.skipped.contains finding.key = true
    · rw [if_pos hskipped]
      refine ih state hbelow ?_
      rw [hpending, List.filter_cons_of_neg (by simpa using hskipped)]
    · have hfirst : state.pending = finding :: rest.filter
          fun finding => !state.skipped.contains finding.key := by
        rw [hpending, List.filter_cons_of_pos (by simpa using hskipped)]
      -- Once the finding is skipped, the rest of the list is tried in its place.
      have hskip : (⟨files, state⟩ : FixHead K).iterate environment dryRun limit
            = .skips ⟨files, state.skip finding⟩ →
          ∃ skipped, Reaches environment dryRun limit ⟨files, state⟩ 0
              ⟨files, { state with skipped }⟩ ∧
            Tried dryRun files state.session.root skipped
              ({ state with skipped } : FixState K).pending
              ((tryFixes environment dryRun state.session.root
                (state.skipped ++ [finding.key]) rest).result files) := by
        intro hstep
        have hrest : (state.skip finding).pending
            = rest.filter fun other => !(state.skip finding).skipped.contains other.key := by
          rw [pending_skip, hfirst, List.filter_cons_of_neg (by simp), List.filter_filter]
          congr 1
          funext other
          simp [FixState.skip, Bool.and_comm]
        obtain ⟨skipped, hreaches, htried⟩ := ih (state.skip finding) hbelow hrest
        have hreaches := (Reaches.skip .refl hstep).trans hreaches
        rw [Nat.zero_add] at hreaches
        exact ⟨skipped, hreaches, htried⟩
      have hiterate : (⟨files, state⟩ : FixHead K).iterate environment dryRun limit
          = tryFinding environment dryRun ⟨files, state⟩ finding :=
        iterate_of_pending environment dryRun hbelow hfirst
      rw [tryFinding] at hiterate
      rw [if_neg hskipped, Action.result_bind, Action.result_attempt, Action.result_look]
      cases htext : (fixedText files state.session.root finding).outcome with
      | error fault =>
        simp only [htext] at hiterate ⊢
        by_cases hfault : fault.isSkipped = true
        · rw [if_pos hfault] at hiterate ⊢
          rw [Action.result_bind]
          exact hskip hiterate
        · rw [if_neg hfault, Action.result_lift]
          refine ⟨state.skipped, .refl, ?_⟩
          rw [hfirst]
          exact .refused htext (by simpa using hfault)
      | ok text =>
        simp only [htext] at hiterate ⊢
        cases dryRun with
        | true =>
          rw [if_pos rfl] at hiterate ⊢
          rw [Action.result_bind]
          exact hskip hiterate
        | false =>
          refine ⟨state.skipped, .refl, ?_⟩
          rw [hfirst, if_neg Bool.false_ne_true, Action.result_bind, result_write]
          rcases hwrite : files.safeWrite {} (finding.file state.session.root).parts
            (encodeUtf8 text) with ⟨written, outcome⟩
          cases outcome with
          | error fault => exact .unwritten rfl htext hwrite
          | ok _ => exact .fixed rfl htext hwrite

/-- How the loop ends at a head: it stops there, or a fault ends it. -/
inductive Ends (environment : Environment) (dryRun : Bool) (limit : Int) (head : FixHead K) :
    Except Fault (FixState K) × Node → Prop
  | stops (stop : head.iterate environment dryRun limit = .stops) :
      Ends environment dryRun limit head (.ok head.state, head.files)
  | fails {fault : Fault} {left : Node}
      (fail : head.iterate environment dryRun limit = .fails fault left) :
      Ends environment dryRun limit head (.error fault, left)

/-- **The passes of the command are iterations of the loop**, up to a head at which it ends. -/
theorem fixPasses_ends (environment : Environment) (dryRun : Bool) (passes : ℕ) (files : Node)
    (state : FixState K) (hpasses : passes = (limit - state.applied).toNat) :
    ∃ writes head, Reaches environment dryRun limit ⟨files, state⟩ writes head ∧
      Ends environment dryRun limit head
        ((fixPasses environment dryRun limit passes state).result files) := by
  induction passes generalizing files state with
  | zero =>
    have hlimit : limit ≤ state.applied := by omega
    have hstop : (⟨files, state⟩ : FixHead K).iterate environment dryRun limit = .stops :=
      if_pos hlimit
    exact ⟨0, _, .refl, .stops hstop⟩
  | succ passes ih =>
    have hbelow : (state.applied : Int) < limit := by omega
    obtain ⟨skipped, hreaches, htried⟩ := tryFixes_tried environment dryRun files
      state.result.report.fixable state hbelow rfl
    have hiterate (finding : Finding) (others : List Finding)
        (hpending : ({ state with skipped } : FixState K).pending = finding :: others) :
        (⟨files, { state with skipped }⟩ : FixHead K).iterate environment dryRun limit
          = tryFinding environment dryRun ⟨files, { state with skipped }⟩ finding :=
      iterate_of_pending environment dryRun hbelow hpending
    rw [fixPasses, Action.result_bind]
    generalize (tryFixes environment dryRun state.session.root state.skipped
      state.result.report.fixable).result files = tried at htried ⊢
    generalize hpending : ({ state with skipped } : FixState K).pending = pending at htried
    cases htried with
    | none =>
      have hstop : (⟨files, { state with skipped }⟩ : FixHead K).iterate environment dryRun limit
          = .stops := by
        rw [iterate, hpending, ite_self]
      exact ⟨0, _, hreaches, .stops hstop⟩
    | @fixed finding others text written hwet hfixed hwrite =>
      subst hwet
      have hstep := hiterate finding others hpending
      simp only [tryFinding, hfixed, Bool.false_eq_true, if_false, hwrite] at hstep
      simp only [if_true]
      rw [Action.result_bind, Action.result_look]
      cases hrefresh : (state.session.refresh (environment.host written)).outcome with
      | error fault =>
        simp only [hrefresh] at hstep
        exact ⟨0, _, hreaches, .fails hstep⟩
      | ok refreshed =>
        obtain ⟨result, session⟩ := refreshed
        simp only [hrefresh] at hstep
        obtain ⟨writes, head, hrest, hends⟩ := ih written
          { session, result, skipped, applied := state.applied + 1 } (by simp only; omega)
        exact ⟨0 + 1 + writes, head, (Reaches.write hreaches hstep).trans hrest, hends⟩
    | @refused finding others fault hfixed hescapes =>
      have hstep := hiterate finding others hpending
      simp only [tryFinding, hfixed, hescapes, Bool.false_eq_true, if_false] at hstep
      exact ⟨0, _, hreaches, .fails hstep⟩
    | @unwritten finding others text written fault hwet hfixed hwrite =>
      subst hwet
      have hstep := hiterate finding others hpending
      simp only [tryFinding, hfixed, Bool.false_eq_true, if_false, hwrite] at hstep
      exact ⟨0, _, hreaches, .fails hstep⟩

end FixHead

/-! ## The command -/

/-- The first head of the loop, unless the first refresh fails. -/
def Session.firstHead? (environment : Environment) (opened : Session K) (files : Node) :
    Option (FixHead K) :=
  match (opened.refresh (environment.host files)).outcome with
  | .error _ => none
  | .ok (result, session) => some ⟨files, { session, result }⟩

theorem Session.firstHead?_eq_some_iff {environment : Environment} {opened : Session K}
    {files : Node} {start : FixHead K} :
    opened.firstHead? environment files = some start ↔
      ∃ result session, (opened.refresh (environment.host files)).outcome = .ok (result, session) ∧
        start = ⟨files, { session, result }⟩ := by
  rw [firstHead?]
  cases (opened.refresh (environment.host files)).outcome with
  | error fault => simp
  | ok refreshed => simp [Prod.ext_iff, eq_comm]

namespace FixHead

/-- How the command ends with the loop at a head. Where the loop stops, the findings that are left
    are told of, and the exit code says whether there are any; the files are those of the head. -/
inductive EndsCommand (environment : Environment) (dryRun : Bool) (limit : Int) (head : FixHead K)
    (run : Journaled Fault ExitCode × Node) : Prop
  | stops (stop : head.iterate environment dryRun limit = .stops) (left : run.2 = head.files)
      (code : run.1.outcome = .ok (if 0 < head.state.result.report.size then 1 else 0))
      (told : run.1.events.getLast? = some (.printed .out (paint environment.colors .bold
        (fixSummary dryRun head.state.applied head.state.result.report.size) ++ "\n")))
  | fails {fault : Fault} (fail : head.iterate environment dryRun limit = .fails fault run.2)
      (escapes : run.1.outcome = .error fault)

theorem outcome_printFailures (colors : Bool) (failures : List ParseFault) :
    (printFailures colors failures).outcome = .ok () := by
  induction failures with
  | nil => rfl
  | cons failure rest ih => exact ih

/-- The command ends as its loop does. -/
theorem EndsCommand.of_ends {environment : Environment} {dryRun : Bool} {limit : Int}
    {opened session : Session K} {files : Node} {result : SessionResult} {head : FixHead K}
    (hrefresh : (opened.refresh (environment.host files)).outcome = .ok (result, session))
    (hends : Ends environment dryRun limit head
      ((fixPasses environment dryRun limit limit.toNat { session, result }).result files)) :
    EndsCommand environment dryRun limit head
      (opened.fixFindings environment dryRun limit files) := by
  have hlook : (Action.look fun files => opened.refresh (environment.host files)).result files
      = (.ok (result, session), files) := by
    rw [Action.result_look, hrefresh]
  have hprint : (Action.lift (printFailures environment.colors result.failures)).result files
      = (.ok (), files) := by
    rw [Action.result_lift, outcome_printFailures]
  generalize hpassed : (fixPasses environment dryRun limit limit.toNat { session, result }).result
    files = passed at hends
  cases hends with
  | stops hstop =>
    have hresult : (opened.fixFindings environment dryRun limit).result files
        = (.ok (if head.state.result.report.size = 0 then 0 else 1), head.files) := by
      simp only [Session.fixFindings, Action.result_bind, hlook, hprint, hpassed]
      rfl
    refine .stops hstop (congrArg Prod.snd hresult) ((congrArg Prod.fst hresult).trans ?_) ?_
    · by_cases hsize : head.state.result.report.size = 0
      · simp [hsize]
      · simp [hsize, Nat.pos_of_ne_zero hsize]
    · rw [Session.fixFindings, Action.events_bind hlook, Action.events_bind hprint,
        Action.events_bind hpassed]
      simp only [List.getLast?_append]
      rfl
  | @fails fault left hfail =>
    have hresult : (opened.fixFindings environment dryRun limit).result files
        = (.error fault, left) := by
      simp only [Session.fixFindings, Action.result_bind, hlook, hprint, hpassed]
    obtain rfl : (opened.fixFindings environment dryRun limit files).2 = left :=
      congrArg Prod.snd hresult
    exact .fails hfail (congrArg Prod.fst hresult)

/-- Once the first refresh is done, the command goes through the loop and ends as that does. -/
theorem fixFindings_ends {environment : Environment} {opened : Session K} {files : Node}
    {start : FixHead K} (hstart : opened.firstHead? environment files = some start) (dryRun : Bool)
    (limit : Int) :
    ∃ writes head, Reaches environment dryRun limit start writes head ∧
      EndsCommand environment dryRun limit head (opened.fixFindings environment dryRun limit files)
      := by
  obtain ⟨result, session, hrefresh, rfl⟩ := Session.firstHead?_eq_some_iff.1 hstart
  have hpasses : limit.toNat = (limit - ((0 : ℕ) : Int)).toNat := by simp
  obtain ⟨writes, head, hreaches, hends⟩ :=
    fixPasses_ends environment dryRun limit.toNat files { session, result } hpasses
  exact ⟨writes, head, hreaches, .of_ends hrefresh hends⟩

/-! ## The result is never stale -/

/-- The texts that can be read in the project while the loop runs. -/
def occurring (environment : Environment) (dryRun : Bool) (limit : Int) (root : List String)
    (start : FixHead K) : Set String :=
  { text | ∃ writes head, Reaches environment dryRun limit start writes head ∧
    ∃ path, (environment.host head.files).textAt root path = some text }

section Fresh

variable {root : List String} {config : Config} {reviews silenced : List (AnyReview Fault K)}
  {texts : Set String} {environment : Environment} {dryRun : Bool} {limit : Int}
  {opened session : Session K} {files : Node} {start head : FixHead K}

/-- The session of the head follows the project, and its result is what the session that was opened
    gives for the files as they are. -/
structure Fresh (environment : Environment) (root : List String) (config : Config)
    (reviews : List (AnyReview Fault K)) (texts : Set String) (opened : Session K)
    (head : FixHead K) : Prop where
  follows : ∃ project, Session.Follows root config reviews texts head.state.session project
  result : (Session.refreshInPlace (environment.host head.files) opened).1.outcome
    = .ok head.state.result

theorem refresh_eq_ok {host : Host} {result : SessionResult} {next : Session K}
    (h : (session.refresh host).outcome = .ok (result, next)) :
    (Session.refreshInPlace host session).1.outcome = .ok result ∧
      (Session.refreshInPlace host session).2 = next := by
  obtain ⟨given, hgiven, hpair⟩ := map_eq_ok.1 h
  obtain ⟨rfl, rfl⟩ := Prod.mk.inj hpair
  exact ⟨hgiven, rfl⟩

/-- A head whose session has just been refreshed, from one that followed the project, is fresh. -/
theorem Fresh.of_refresh {project : Project}
    (hfollows : Session.Follows root config silenced texts session project)
    (hopened : Session.Follows root config silenced texts opened {}) (hnew : opened.snapshot = {})
    (hdigests : Set.InjOn contentDigest texts)
    (htexts : ∀ path text, (environment.host head.files).textAt root path = some text →
      text ∈ texts)
    (hrefresh : (session.refresh (environment.host head.files)).outcome
      = .ok (head.state.result, head.state.session)) :
    Fresh environment root config silenced texts opened head := by
  obtain ⟨hresult, hsession⟩ := refresh_eq_ok hrefresh
  constructor
  · rw [← hsession]
    exact hfollows.refresh hdigests htexts
  · rw [← hfollows.outcome_eq hdigests htexts hopened hnew]
    exact hresult

/-- **Every head that the loop reaches is fresh**: an iteration that skips changes neither files nor
    result, and one that writes refreshes. -/
theorem Fresh.of_reaches {writes : ℕ}
    (hstart : Fresh environment root config silenced (start.occurring environment dryRun limit root)
      opened start)
    (hopened : Session.Follows root config silenced (start.occurring environment dryRun limit root)
      opened {})
    (hnew : opened.snapshot = {})
    (hdigests : Set.InjOn contentDigest (start.occurring environment dryRun limit root))
    (h : Reaches environment dryRun limit start writes head) :
    Fresh environment root config silenced (start.occurring environment dryRun limit root) opened
      head := by
  induction h with
  | refl => exact hstart
  | skip _ hstep ih =>
    obtain ⟨finding, others, -, rfl⟩ := iterate_eq_skips hstep
    exact ⟨ih.follows, ih.result⟩
  | write hbefore hstep ih =>
    obtain ⟨finding, text, hwrote⟩ := iterate_eq_writes hstep
    obtain ⟨project, hfollows⟩ := ih.follows
    refine Fresh.of_refresh hfollows hopened hnew hdigests ?_ hwrote.refresh
    intro path read hread
    exact ⟨_, _, .write hbefore hstep, path, hread⟩

end Fresh

/-- **The loop of fixes ends, writes no more than it may, and never works on a stale result.** For a
    session that was opened and whose first refresh is done: no iterations go on for ever; at every
    head of the loop at most as many files have been written as passes are allowed, and the result
    is that of a new session on the files as they are, while different texts have different
    digests; and the command goes through such heads up to one where the loop ends. If the loop
    stops there, the files are left as they are at that head, the number of findings told of is that
    of its result, and the exit code is 1 just if there are any; else a fault escapes. -/
theorem loop_ends_fresh (environment : Environment) (root : List String)
    (reviews : List (AnyReview Fault K)) (config : Config) (opened : Session K)
    (hopened : Session.start root reviews config = .ok opened) (dryRun : Bool) (limit : Int)
    (files : Node) (start : FixHead K) (hstart : opened.firstHead? environment files = some start)
    (hdigests : Set.InjOn contentDigest (start.occurring environment dryRun limit root)) :
    (∀ heads : ℕ → FixHead K, ∃ n, ¬ GoesOn environment dryRun limit (heads n) (heads (n + 1))) ∧
    (∀ writes head, Reaches environment dryRun limit start writes head →
      writes ≤ limit.toNat ∧
      (Session.refreshInPlace (environment.host head.files) opened).1.outcome
        = .ok head.state.result) ∧
    ∃ writes head, Reaches environment dryRun limit start writes head ∧
      EndsCommand environment dryRun limit head
        (opened.fixFindings environment dryRun limit files) := by
  refine ⟨?_, ?_, fixFindings_ends hstart dryRun limit⟩
  · intro heads
    by_contra hall
    rw [not_exists_not] at hall
    exact (wellFounded_iff_isEmpty_descending_chain.1
      (wellFounded_goesOn environment dryRun limit)).false ⟨heads, hall⟩
  · intro writes head hreaches
    obtain ⟨hnew, silenced, hfollows⟩ := Session.start_follows hopened
      (start.occurring environment dryRun limit root)
    rw [Session.firstHead?] at hstart
    split at hstart
    · cases hstart
    · next result session hrefresh =>
      obtain rfl := Option.some.inj hstart
      have hfirst : Fresh environment root config silenced _ opened ⟨files, { session, result }⟩ :=
        Fresh.of_refresh hfollows hfollows hnew hdigests
          (fun path text htext => ⟨0, _, .refl, path, htext⟩) hrefresh
      have hfresh := Fresh.of_reaches hfirst hfollows hnew hdigests hreaches
      exact ⟨(hreaches.writes_le rfl).2, hfresh.result⟩

/-- A head from which the loop goes on to a second one and stops there. -/
theorem Reaches.of_two {environment : Environment} {dryRun : Bool} {limit : Int}
    {start second head : FixHead K} {writes : ℕ}
    (hfirst : start.iterate environment dryRun limit = .writes second)
    (hsecond : second.iterate environment dryRun limit = .stops)
    (h : Reaches environment dryRun limit start writes head) : head = start ∨ head = second := by
  induction h with
  | refl => exact Or.inl rfl
  | skip _ hstep ih =>
    rcases ih with rfl | rfl
    · rw [hfirst] at hstep; cases hstep
    · rw [hsecond] at hstep; cases hstep
  | write _ hstep ih =>
    rcases ih with rfl | rfl
    · rw [hfirst] at hstep
      exact Or.inr (FixStep.writes.inj hstep).symm
    · rw [hsecond] at hstep; cases hstep

end FixHead

end Loop

/-- The name and the content of the only file of a directory. -/
def Node.onlyFile? : Node → Option (String × Bytes)
  | .directory [(name, .file content)] => some (name, content)
  | _ => none

theorem Node.eq_of_onlyFile? {node : Node} {name : String} {content : Bytes}
    (h : node.onlyFile? = some (name, content)) : node = .directory [(name, .file content)] := by
  unfold onlyFile? at h
  split at h
  · obtain ⟨rfl, rfl⟩ := Prod.mk.inj (Option.some.inj h)
    rfl
  · cases h

/-- Unfinished work that is marked as done: one file is written, and a new session finds nothing. -/
theorem FixHead.loop_ends_fresh_unfinished :
    let reviews : List (AnyReview Fault fun _ : Unit => List Mark) := [⟨(), unfinishedReview⟩]
    let config : Config := [("extra_file_patterns", .texts ["*.txt"])]
    let environment : Environment := { directory := [], root := [] }
    let before := Host.singleFile "a.txt" "TODO\n"
    let after := Host.singleFile "a.txt" "DONE\n"
    ∃ opened start, Session.start [] reviews config = .ok opened ∧
      opened.firstHead? environment before.files = some start ∧
      Set.InjOn contentDigest (start.occurring environment false 5 []) ∧
      (opened.fixFindings environment false 5 before.files).2 = after.files ∧
      (opened.fixFindings environment false 5 before.files).1.outcome = .ok 0 ∧
      ∃ result, (Session.refreshInPlace (environment.host after.files) opened).1.outcome
        = .ok result ∧ result.report.size = 0 := by
  intro reviews config environment before after
  have hrun : ((Session.start [] reviews config).toOption.bind fun opened =>
      (opened.firstHead? environment before.files).bind fun start =>
        match start.iterate environment false 5 with
        | .writes second =>
          match second.iterate environment false 5 with
          | .stops => some (second.files.onlyFile?, second.state.result.report.size)
          | _ => none
        | _ => none) = some (some ("a.txt", encodeUtf8 "DONE\n"), 0) := by
    decide +kernel
  obtain ⟨opened, hopened, hrun⟩ := Option.bind_eq_some_iff.1 hrun
  obtain ⟨start, hstart, hrun⟩ := Option.bind_eq_some_iff.1 hrun
  have hopened := toOption_eq_some.1 hopened
  split at hrun
  · next second hfirst =>
    split at hrun
    · next hsecond =>
      obtain ⟨honly, hsize⟩ := Prod.mk.inj (Option.some.inj hrun)
      have hafter : second.files = after.files := Node.eq_of_onlyFile? honly
      have hbefore : start.files = before.files := by
        rw [Session.firstHead?] at hstart
        split at hstart
        · cases hstart
        · rw [← Option.some.inj hstart]
      have hread : ∀ text ∈ ["TODO\n", "DONE\n"], readText (encodeUtf8 text) = .ok text := by
        simp only [List.mem_cons, List.not_mem_nil, or_false, forall_eq_or_imp, forall_eq]
        exact ⟨rfl, rfl⟩
      have hdigests : Set.InjOn contentDigest (start.occurring environment false 5 []) := by
        refine (Host.injOn_singleFiles [] "a.txt" hread (by decide +kernel)).mono ?_
        rintro text ⟨writes, head, hreaches, path, htext⟩
        rcases hreaches.of_two hfirst hsecond with rfl | rfl
        · rw [hbefore] at htext
          exact ⟨before, List.mem_cons_self, path, htext⟩
        · rw [hafter] at htext
          exact ⟨after, List.mem_cons_of_mem _ List.mem_cons_self, path, htext⟩
      obtain ⟨-, hfresh, writes, head, hreaches, hends⟩ := FixHead.loop_ends_fresh environment []
        reviews config opened hopened false 5 before.files start hstart hdigests
      have hresult := (hfresh writes head hreaches).2
      -- The loop does not end at the first head, where it goes on.
      rcases hreaches.of_two hfirst hsecond with rfl | rfl
      · cases hends with
        | stops hstop => rw [hfirst] at hstop; cases hstop
        | fails hfail => rw [hfirst] at hfail; cases hfail
      · cases hends with
        | stops _ hleft hcode =>
          rw [hafter] at hleft hresult
          rw [hsize] at hcode
          exact ⟨opened, start, hopened, hstart, hdigests, hleft, hcode, _, hresult, hsize⟩
        | fails hfail => rw [hsecond] at hfail; cases hfail
    · cases hrun
  · cases hrun

end ProjectReview
