import ProjectReview.Proofs.Leftovers

set_option autoImplicit false

/-! # Warnings of the fix command

`FixHead.run` is what is left of the loop of fixes at a head. An iteration that goes on tells of
what it does and leaves the rest to the loop from the next head (`continues_of_skips`,
`continues_of_writes`). So the loop from any head that is reached is the end of the whole loop
(`Reaches.continues`): it has the same outcome, and what it tells of is told of.

A finding whose file is missing or a directory is warned about and skipped. A file whose bytes are
no text is another matter: the fault escapes, and the command fails. The main result,
`unreadable_files_are_skipped`, says that nothing else about the files makes it fail;
`undecodable_file_ends_fixing` is a project where it does. -/

namespace ProjectReview

/-! ## What is told on the way -/

namespace Action

variable {σ α β : Type}

/-- A run with some events in front. -/
def preceded (told : List Event) (run : Journaled Fault α × σ) : Journaled Fault α × σ :=
  (⟨told ++ run.1.events, run.1.outcome⟩, run.2)

theorem preceded_nil (run : Journaled Fault α × σ) : preceded [] run = run := rfl

theorem preceded_preceded (first second : List Event) (run : Journaled Fault α × σ) :
    preceded first (preceded second run) = preceded (first ++ second) run := by
  rw [preceded, preceded, preceded, List.append_assoc]

/-- A second action follows what a first one tells. -/
theorem bind_of_ok {x : Action σ α} {f : α → Action σ β} {state next : σ} {told : List Event}
    {a : α} (h : x state = (⟨told, .ok a⟩, next)) : (x >>= f) state = preceded told (f a next) := by
  show Action.bind x f state = _
  rw [Action.bind, h]
  rfl

theorem bind_of_error {x : Action σ α} {f : α → Action σ β} {state next : σ} {told : List Event}
    {fault : Fault} (h : x state = (⟨told, .error fault⟩, next)) :
    (x >>= f) state = (⟨told, .error fault⟩, next) := by
  show Action.bind x f state = _
  rw [Action.bind, h]

/-- What is told before the first of two actions is told before both. -/
theorem bind_of_preceded {x y : Action σ α} {f : α → Action σ β} {state next : σ}
    {told : List Event} (h : x state = preceded told (y next)) :
    (x >>= f) state = preceded told ((y >>= f) next) := by
  rcases hy : y next with ⟨⟨events, outcome⟩, left⟩
  rw [hy, preceded] at h
  cases outcome with
  | error fault => rw [bind_of_error h, bind_of_error hy, preceded]
  | ok a => rw [bind_of_ok h, bind_of_ok hy, preceded_preceded]

theorem attempt_look (f : σ → Journaled Fault α) (state : σ) :
    (look f).attempt state = (⟨(f state).events, .ok (f state).outcome⟩, state) := rfl

theorem events_isPrefix_bind (x : Action σ α) (f : α → Action σ β) (state : σ) :
    (x state).1.events <+: ((x >>= f) state).1.events := by
  show _ <+: (Action.bind x f state).1.events
  rw [Action.bind]
  rcases x state with ⟨⟨events, outcome⟩, next⟩
  cases outcome with
  | error fault => exact List.prefix_rfl
  | ok a => exact List.prefix_append _ _

end Action

/-! ## Files that cannot be read -/

/-- The file of a finding holds bytes that are no text. -/
def Undecodable (files : Node) (root : List String) (finding : Finding) (why : Utf8Fault) : Prop :=
  ∃ bytes, files.bytesAt (finding.file root).parts = .ok bytes ∧ decodeUtf8 bytes = .error why

section Reading

variable {files : Node} {root : List String} {finding : Finding} {fault : Fault}

/-- A file cannot be read because none is there, or because its bytes are no text. -/
theorem Finding.read_eq_error_iff :
    finding.read files root = .error fault ↔
      (∃ problem, files.bytesAt (finding.file root).parts = .error problem ∧
        fault = .file ⟨problem, (finding.file root).text⟩) ∨
      ∃ why, Undecodable files root finding why ∧ fault = .decode why := by
  rw [Finding.read, Node.readTextAt]
  cases hbytes : files.bytesAt (finding.file root).parts with
  | error problem => simp [Undecodable, hbytes, eq_comm]
  | ok bytes => cases hdecode : decodeUtf8 bytes <;>
      simp [Undecodable, hbytes, readText, hdecode, Except.map, Except.mapError, eq_comm]

/-- Only a file whose bytes are no text hinders a finding for good. -/
theorem Hindered.undecodable (h : Hindered files root finding fault)
    (hescapes : fault.isSkipped = false) :
    ∃ why, Undecodable files root finding why ∧ fault = .decode why := by
  cases h with
  | unreadable hread =>
    rcases Finding.read_eq_error_iff.1 hread with ⟨problem, -, rfl⟩ | hdecode
    · cases hescapes
    · exact hdecode
  | refused => cases hescapes

end Reading

/-! ## The findings of one result -/

/-- The warning about a finding that cannot be fixed. -/
def Finding.warning (finding : Finding) (environment : Environment) (fault : Fault) : Event :=
  .printed .err (paint environment.colors .yellow
    ("  WARNING: " ++ ("cannot fix " ++ finding.path ++ ": " ++ fault.message)) ++ "\n")

/-- What a dry run says of a finding that could be fixed. -/
def Finding.wouldFix (finding : Finding) (environment : Environment) : Event :=
  .printed .out
    (paint environment.colors .yellow "  Would fix" ++ finding.line environment.colors ++ "\n")

section Trying

variable {environment : Environment} {dryRun : Bool} {root : List String}
  {skipped : List FindingKey} {findings others : List Finding} {finding : Finding} {files : Node}

/-- A finding that is skipped already is passed over. -/
theorem tryFixes_of_mem (environment : Environment) (dryRun : Bool) (root : List String)
    (h : finding.key ∈ skipped) (rest : List Finding) :
    tryFixes environment dryRun root skipped (finding :: rest)
      = tryFixes environment dryRun root skipped rest := by
  rw [tryFixes, if_pos (List.contains_iff_mem.2 h)]

/-- A finding that is hindered is warned about and skipped. -/
theorem tryFixes_of_hindered {fault : Fault} (environment : Environment) (dryRun : Bool)
    (h : finding.key ∉ skipped) (hwhy : Hindered files root finding fault)
    (hskipped : fault.isSkipped = true) (rest : List Finding) :
    tryFixes environment dryRun root skipped (finding :: rest) files
      = Action.preceded [finding.warning environment fault]
          (tryFixes environment dryRun root (skipped ++ [finding.key]) rest files) := by
  have hlook : (Action.look fun files => fixedText files root finding).attempt files
      = (⟨[], .ok (.error fault)⟩, files) := by
    rw [Action.attempt_look, hwhy.fixedText_eq]
    rfl
  rw [tryFixes, if_neg (by simpa using h), Action.bind_of_ok hlook]
  simp only [hskipped, if_true]
  rw [Action.preceded_nil]
  exact Action.bind_of_ok rfl

/-- In a dry run, a finding that could be fixed is told of and skipped. -/
theorem tryFixes_of_dry {text : String} (environment : Environment) (h : finding.key ∉ skipped)
    (htext : (fixedText files root finding).outcome = .ok text) (rest : List Finding) :
    tryFixes environment true root skipped (finding :: rest) files
      = Action.preceded ((fixedText files root finding).events ++ [finding.wouldFix environment])
          (tryFixes environment true root (skipped ++ [finding.key]) rest files) := by
  have hlook : (Action.look fun files => fixedText files root finding).attempt files
      = (⟨(fixedText files root finding).events, .ok (.ok text)⟩, files) := by
    rw [Action.attempt_look, htext]
  rw [tryFixes, if_neg (by simpa using h), Action.bind_of_ok hlook, ← Action.preceded_preceded]
  exact congrArg (Action.preceded _) (Action.bind_of_ok rfl)

/-- A finding that is fixed ends the trying: its file is written, and what was skipped stays so. -/
theorem tryFixes_of_fixed {text : String} {written : Node} (environment : Environment)
    (h : finding.key ∉ skipped) (htext : (fixedText files root finding).outcome = .ok text)
    (hwrite : files.safeWrite {} (finding.file root).parts (encodeUtf8 text) = (written, .ok ()))
    (rest : List Finding) :
    ∃ told, tryFixes environment false root skipped (finding :: rest) files
      = (⟨told, .ok (skipped, true)⟩, written) := by
  have hlook : (Action.look fun files => fixedText files root finding).attempt files
      = (⟨(fixedText files root finding).events, .ok (.ok text)⟩, files) := by
    rw [Action.attempt_look, htext]
  have hwritten : FileAction.write (finding.file root).parts (encodeUtf8 text) files
      = (⟨[], .ok ()⟩, written) := by
    rw [FileAction.write, hwrite]
    rfl
  refine ⟨(fixedText files root finding).events ++ [.printed .out (paint environment.colors .green
    "  Fixed" ++ finding.line environment.colors ++ "\n")], ?_⟩
  rw [tryFixes, if_neg (by simpa using h), Action.bind_of_ok hlook]
  simp only [Bool.false_eq_true, if_false]
  rw [Action.bind_of_ok hwritten]
  rfl

/-- The findings that are skipped already do not count. -/
theorem tryFixes_first (environment : Environment) (dryRun : Bool) (root : List String)
    (hfirst : (findings.filter fun other => !skipped.contains other.key) = finding :: others) :
    ∃ rest, ∀ more, tryFixes environment dryRun root (skipped ++ more) findings
      = tryFixes environment dryRun root (skipped ++ more) (finding :: rest) := by
  induction findings with
  | nil => cases hfirst
  | cons first rest ih =>
    by_cases hmem : first.key ∈ skipped
    · rw [List.filter_cons_of_neg (by simpa using hmem)] at hfirst
      obtain ⟨after, hsame⟩ := ih hfirst
      refine ⟨after, fun more => ?_⟩
      rw [tryFixes_of_mem environment dryRun root (List.mem_append_left more hmem), hsame]
    · rw [List.filter_cons_of_pos (by simpa using hmem)] at hfirst
      obtain ⟨rfl, -⟩ := List.cons.inj hfirst
      exact ⟨rest, fun _ => rfl⟩

end Trying

/-- The loop begins with the files as they are and with no fix applied. -/
theorem Session.eq_of_firstHead? {ι : Type} {K : ι → Type} {environment : Environment}
    {opened : Session K} {files : Node} {start : FixHead K}
    (h : opened.firstHead? environment files = some start) :
    start.files = files ∧ start.state.applied = 0 := by
  obtain ⟨result, session, -, rfl⟩ := Session.firstHead?_eq_some_iff.1 h
  exact ⟨rfl, rfl⟩

namespace FixHead

variable {ι : Type} {K : ι → Type} {environment : Environment} {dryRun : Bool} {limit : Int}
  {start head next : FixHead K} {finding : Finding}

/-! ## The rest of the loop -/

/-- What is left of the loop at a head. -/
def run (environment : Environment) (dryRun : Bool) (limit : Int) (head : FixHead K) :
    Journaled Fault (FixState K) × Node :=
  fixPasses environment dryRun limit (limit - head.state.applied).toNat head.state head.files

theorem run_of_below {files : Node} {state : FixState K} (environment : Environment) (dryRun : Bool)
    (h : (state.applied : Int) < limit) :
    run environment dryRun limit ⟨files, state⟩
      = fixPasses environment dryRun limit ((limit - state.applied).toNat - 1 + 1) state files := by
  rw [run, show (limit - state.applied).toNat - 1 + 1 = (limit - state.applied).toNat by omega]

theorem Tries.key_not_mem (h : head.Tries limit finding) : finding.key ∉ head.state.skipped := by
  have hpending := (List.mem_filter.1 (List.mem_of_mem_head? h.first)).2
  simpa using hpending

/-- Trying the findings of the result begins with the finding that is tried. -/
theorem Tries.tryFixes_eq (h : head.Tries limit finding) (environment : Environment)
    (dryRun : Bool) :
    ∃ rest, ∀ more, tryFixes environment dryRun head.state.session.root
        (head.state.skipped ++ more) head.state.result.report.fixable
      = tryFixes environment dryRun head.state.session.root (head.state.skipped ++ more)
          (finding :: rest) := by
  obtain ⟨others, hpending⟩ := List.head?_eq_some_iff.1 h.first
  exact tryFixes_first environment dryRun head.state.session.root hpending

/-- A finding that is skipped leaves the rest of the loop to the others. -/
theorem Tries.run_skip {told : List Event} (h : head.Tries limit finding)
    (hskip : ∀ rest, tryFixes environment dryRun head.state.session.root head.state.skipped
        (finding :: rest) head.files
      = Action.preceded told (tryFixes environment dryRun head.state.session.root
          (head.state.skipped ++ [finding.key]) rest head.files)) :
    head.run environment dryRun limit
      = Action.preceded told
          (run environment dryRun limit ⟨head.files, head.state.skip finding⟩) := by
  obtain ⟨rest, hsame⟩ := h.tryFixes_eq environment dryRun
  have hbefore := hsame []
  rw [List.append_nil] at hbefore
  have htry : tryFixes environment dryRun head.state.session.root head.state.skipped
        head.state.result.report.fixable head.files
      = Action.preceded told (tryFixes environment dryRun head.state.session.root
          (head.state.skipped ++ [finding.key]) head.state.result.report.fixable head.files) := by
    rw [hbefore, hsame [finding.key], hskip rest, tryFixes_of_mem environment dryRun _ (by simp)]
  have hlater : ((head.state.skip finding).applied : Int) < limit := h.below
  rw [run_of_below environment dryRun h.below, run_of_below environment dryRun hlater, fixPasses,
    fixPasses]
  exact Action.bind_of_preceded htry

/-- The loop from one head tells of something and goes on as the loop from another. -/
def Continues (environment : Environment) (dryRun : Bool) (limit : Int) (head next : FixHead K) :
    Prop :=
  ∃ told, head.run environment dryRun limit
    = Action.preceded told (next.run environment dryRun limit)

theorem continues_of_skips (h : head.iterate environment dryRun limit = .skips next) :
    Continues environment dryRun limit head next := by
  obtain ⟨finding, htries, rfl⟩ := tries_of_skips h
  have hattempted := htries.attempted environment dryRun
  rw [h] at hattempted
  cases hattempted with
  | hindered hwhy hskipped =>
    exact ⟨_, htries.run_skip
      (tryFixes_of_hindered environment dryRun htries.key_not_mem hwhy hskipped)⟩
  | dry hdry htext =>
    subst hdry
    exact ⟨_, htries.run_skip (tryFixes_of_dry environment htries.key_not_mem htext)⟩

theorem continues_of_writes (h : head.iterate environment dryRun limit = .writes next) :
    Continues environment dryRun limit head next := by
  obtain ⟨finding, htries, hattempted⟩ := attempted_of_ne_stops h (by simp)
  cases hattempted with
  | @written text written result session hwet htext hwrite hrefresh =>
    subst hwet
    obtain ⟨rest, hsame⟩ := htries.tryFixes_eq environment false
    have hbefore := hsame []
    rw [List.append_nil] at hbefore
    obtain ⟨told, htold⟩ := tryFixes_of_fixed environment htries.key_not_mem htext hwrite rest
    rw [← hbefore] at htold
    have hlook : (Action.look fun files => head.state.session.refresh (environment.host files))
          written
        = (⟨(head.state.session.refresh (environment.host written)).events,
            .ok (result, session)⟩, written) := by
      rw [Action.look, ← hrefresh]
    have hbelow := htries.below
    refine ⟨told ++ (head.state.session.refresh (environment.host written)).events, ?_⟩
    rw [run_of_below environment false hbelow, fixPasses, Action.bind_of_ok htold]
    simp only [if_true]
    rw [Action.bind_of_ok hlook, Action.preceded_preceded, run]
    congr 2
    simp only
    omega

/-- **The loop from a head that is reached is the end of the whole loop.** -/
theorem Reaches.continues {writes : ℕ} (h : Reaches environment dryRun limit start writes head) :
    Continues environment dryRun limit start head := by
  have step {before after : FixHead K} (hbefore : Continues environment dryRun limit start before)
      (hafter : Continues environment dryRun limit before after) :
      Continues environment dryRun limit start after := by
    obtain ⟨first, hfirst⟩ := hbefore
    obtain ⟨second, hsecond⟩ := hafter
    exact ⟨first ++ second, by rw [hfirst, hsecond, Action.preceded_preceded]⟩
  induction h with
  | refl => exact ⟨[], rfl⟩
  | skip _ hstep ih => exact step ih (continues_of_skips hstep)
  | write _ hstep ih => exact step ih (continues_of_writes hstep)

/-- What the command does once its loop has stopped. -/
def closeFixes (environment : Environment) (dryRun : Bool) (state : FixState K) :
    FileAction ExitCode := fun files =>
  (⟨[.fixesEnded state.applied state.session.runs,
      .printed .out (paint environment.colors .bold
        (fixSummary dryRun state.applied state.result.report.size) ++ "\n")],
    .ok (if state.result.report.size = 0 then 0 else 1)⟩, files)

/-- Once the first refresh is done, the command tells of the files that cannot be parsed, goes
    through the loop, and closes. -/
theorem fixFindings_eq {opened session : Session K} {files : Node} {result : SessionResult}
    (hrefresh : (opened.refresh (environment.host files)).outcome = .ok (result, session))
    (dryRun : Bool) (limit : Int) :
    opened.fixFindings environment dryRun limit files
      = Action.preceded ((opened.refresh (environment.host files)).events
            ++ (printFailures environment.colors result.failures).events)
          ((fixPasses environment dryRun limit limit.toNat { session, result }
            >>= closeFixes environment dryRun) files) := by
  have hlook : (Action.look fun files => opened.refresh (environment.host files)) files
      = (⟨(opened.refresh (environment.host files)).events, .ok (result, session)⟩, files) := by
    rw [Action.look, ← hrefresh]
  have hprint : (Action.lift (printFailures environment.colors result.failures) :
        FileAction Unit) files
      = (⟨(printFailures environment.colors result.failures).events, .ok ()⟩, files) := by
    rw [Action.lift, ← outcome_printFailures environment.colors result.failures]
  rw [Session.fixFindings, Action.bind_of_ok hlook]
  simp only
  rw [Action.bind_of_ok hprint, Action.preceded_preceded]
  rfl

/-- The fault of the first refresh escapes. -/
theorem fixFindings_of_error {opened : Session K} {files : Node} {fault : Fault}
    (hrefresh : (opened.refresh (environment.host files)).outcome = .error fault)
    (dryRun : Bool) (limit : Int) :
    opened.fixFindings environment dryRun limit files
      = (⟨(opened.refresh (environment.host files)).events, .error fault⟩, files) := by
  have hlook : (Action.look fun files => opened.refresh (environment.host files)) files
      = (⟨(opened.refresh (environment.host files)).events, .error fault⟩, files) := by
    rw [Action.look, ← hrefresh]
  rw [Session.fixFindings, Action.bind_of_error hlook]

/-- The command tells of what it does up to a head that is reached, goes through the rest of the
    loop, and closes. -/
theorem Reaches.fixFindings_eq {opened : Session K} {files : Node} {writes : ℕ}
    (h : Reaches environment dryRun limit start writes head)
    (hstart : opened.firstHead? environment files = some start) :
    ∃ told, opened.fixFindings environment dryRun limit files
      = Action.preceded told
          ((fixPasses environment dryRun limit (limit - head.state.applied).toNat head.state
            >>= closeFixes environment dryRun) head.files) := by
  obtain ⟨told, htold⟩ := h.continues
  obtain ⟨result, session, hrefresh, rfl⟩ := Session.firstHead?_eq_some_iff.1 hstart
  have hpasses : limit.toNat = (limit - ((0 : ℕ) : Int)).toNat := by simp
  rw [run, run, ← hpasses] at htold
  rw [FixHead.fixFindings_eq hrefresh, Action.bind_of_preceded htold, Action.preceded_preceded]
  exact ⟨_, rfl⟩

/-- The loop does not get beyond a head where it fails. -/
theorem Reaches.eq_of_fails {writes : ℕ} {fault : Fault} {left : Node}
    (h : Reaches environment dryRun limit start writes head)
    (hfails : start.iterate environment dryRun limit = .fails fault left) : head = start := by
  refine List.mem_singleton.1 (h.mem_of_closed (List.mem_singleton_self start) ?_)
  simp [GoesOn, hfails]

/-- A fault that ends the loop at a head that is reached escapes from the command. -/
theorem Reaches.outcome_of_fails {opened : Session K} {files left : Node} {writes : ℕ}
    {fault : Fault} (h : Reaches environment dryRun limit start writes head)
    (hstart : opened.firstHead? environment files = some start)
    (hfails : head.iterate environment dryRun limit = .fails fault left) :
    (opened.fixFindings environment dryRun limit files).1.outcome = .error fault := by
  obtain ⟨_, last, hreaches, hends⟩ := fixPasses_ends environment dryRun
    (limit - head.state.applied).toNat head.files head.state rfl
  obtain rfl : last = head := hreaches.eq_of_fails hfails
  obtain ⟨told, hcommand⟩ := h.fixFindings_eq hstart
  generalize hresult : (fixPasses environment dryRun limit (limit - last.state.applied).toNat
    last.state).result last.files = result at hends
  cases hends with
  | stops hstop =>
    rw [hfails] at hstop
    cases hstop
  | fails hfail =>
    rw [hfails] at hfail
    obtain ⟨rfl, rfl⟩ := FixStep.fails.inj hfail
    have hclosed := Action.result_bind (fixPasses environment dryRun limit
      (limit - last.state.applied).toNat last.state) (closeFixes environment dryRun) last.files
    rw [hresult] at hclosed
    rw [hcommand]
    exact congrArg Prod.fst hclosed

/-! ## The command -/

theorem Tries.iterate_of_hindered {fault : Fault} (h : head.Tries limit finding)
    (environment : Environment) (dryRun : Bool)
    (hwhy : Hindered head.files head.state.session.root finding fault) :
    head.iterate environment dryRun limit
      = if fault.isSkipped then .skips ⟨head.files, head.state.skip finding⟩
        else .fails fault head.files := by
  obtain ⟨others, hpending⟩ := List.head?_eq_some_iff.1 h.first
  rw [iterate_of_pending environment dryRun h.below hpending, tryFinding,
    fixedText_eq_error_iff.2 hwhy]

/-- A finding that is hindered and skipped is warned about. -/
theorem Reaches.warning_mem {opened : Session K} {files : Node} {writes : ℕ} {fault : Fault}
    (h : Reaches environment dryRun limit start writes head)
    (hstart : opened.firstHead? environment files = some start) (htries : head.Tries limit finding)
    (hwhy : Hindered head.files head.state.session.root finding fault)
    (hskipped : fault.isSkipped = true) :
    finding.warning environment fault
      ∈ (opened.fixFindings environment dryRun limit files).1.events := by
  obtain ⟨told, hcommand⟩ := h.fixFindings_eq hstart
  have hrun := htries.run_skip
    (tryFixes_of_hindered environment dryRun htries.key_not_mem hwhy hskipped)
  have hloop : finding.warning environment fault
      ∈ (head.run environment dryRun limit).1.events := by
    rw [hrun]
    exact List.mem_append_left _ (List.mem_singleton_self _)
  rw [hcommand]
  exact List.mem_append_right told ((Action.events_isPrefix_bind _ _ _).subset hloop)

/-- What is asked for at a head is carried out: where the fixes of a finding apply, the file can be
    written, and the session can be refreshed on the files that result. -/
def CarriesOut (environment : Environment) (head : FixHead K) (finding : Finding) : Prop :=
  ∀ text, (fixedText head.files head.state.session.root finding).outcome = .ok text →
    ∃ written refreshed,
      head.files.safeWrite {} (finding.file head.state.session.root).parts (encodeUtf8 text)
        = (written, .ok ()) ∧
      (head.state.session.refresh (environment.host written)).outcome = .ok refreshed

/-- A fault that ends the loop is that of a file whose bytes are no text, if all that is asked for
    is carried out. -/
theorem undecodable_of_fails {fault : Fault} {left : Node}
    (h : head.iterate environment dryRun limit = .fails fault left)
    (hworks : dryRun = false → ∀ finding, head.Tries limit finding →
      head.CarriesOut environment finding) :
    ∃ finding why, head.Tries limit finding ∧
      Undecodable head.files head.state.session.root finding why ∧ fault = .decode why := by
  obtain ⟨finding, htries, hattempted⟩ := attempted_of_ne_stops h (by simp)
  cases hattempted with
  | escapes hwhy hescapes =>
    obtain ⟨why, hundecodable, hfault⟩ := hwhy.undecodable hescapes
    exact ⟨finding, why, htries, hundecodable, hfault⟩
  | unwritten hwet htext hwrite =>
    obtain ⟨written, refreshed, hwritten, -⟩ := hworks hwet finding htries _ htext
    rw [hwrite] at hwritten
    cases hwritten
  | unrefreshed hwet htext hwrite hrefresh =>
    obtain ⟨written, refreshed, hwritten, hrefreshed⟩ := hworks hwet finding htries _ htext
    rw [hwrite] at hwritten
    obtain ⟨rfl, -⟩ := Prod.mk.inj hwritten
    rw [hrefresh] at hrefreshed
    cases hrefreshed

/-- **Files that cannot be read do not end the command, unless their bytes are no text.** Let all
    writes and refreshes be carried out. Then the command fails just if the loop comes to a finding
    whose file has bytes that are no text, and with that fault. A finding whose file is missing or a
    directory is skipped and warned about. And where the command gives an exit code with a pass
    left, every finding with fixes has been tried, or another with its key. -/
theorem unreadable_files_are_skipped (environment : Environment) (dryRun : Bool) (limit : Int)
    (opened : Session K) (files : Node) (start : FixHead K)
    (hstart : opened.firstHead? environment files = some start)
    (hworks : dryRun = false → ∀ writes head finding,
      Reaches environment dryRun limit start writes head → head.Tries limit finding →
      head.CarriesOut environment finding) :
    let ran := opened.fixFindings environment dryRun limit files
    (∀ fault, ran.1.outcome = .error fault ↔
      ∃ writes head finding why, Reaches environment dryRun limit start writes head ∧
        head.Tries limit finding ∧
        Undecodable head.files head.state.session.root finding why ∧ fault = .decode why) ∧
    (∀ writes head finding problem, Reaches environment dryRun limit start writes head →
      head.Tries limit finding →
      head.files.bytesAt (finding.file head.state.session.root).parts = .error problem →
      head.iterate environment dryRun limit = .skips ⟨head.files, head.state.skip finding⟩ ∧
        finding.warning environment
          (.file ⟨problem, (finding.file head.state.session.root).text⟩) ∈ ran.1.events) ∧
    ∀ code, ran.1.outcome = .ok code →
      ∃ writes head, Reaches environment dryRun limit start writes head ∧ ran.2 = head.files ∧
        head.iterate environment dryRun limit = .stops ∧
        ((head.state.applied : Int) < limit → ∀ finding ∈ head.state.result.report.fixable,
          ∃ before tried,
            SkippedBefore environment dryRun limit start head finding.key before tried) := by
  intro ran
  obtain ⟨writes, last, hreaches, hends⟩ := fixFindings_ends hstart dryRun limit
  refine ⟨fun fault => ⟨fun hfault => ?_, ?_⟩, ?_, fun code hcode => ?_⟩
  · cases hends with
    | stops _ _ hcode =>
      rw [hfault] at hcode
      cases hcode
    | fails hfail hescapes =>
      rw [hfault] at hescapes
      obtain rfl := Except.error.inj hescapes
      obtain ⟨finding, why, htries, hwhy⟩ := undecodable_of_fails hfail
        fun hwet finding => hworks hwet writes last finding hreaches
      exact ⟨writes, last, finding, why, hreaches, htries, hwhy⟩
  · rintro ⟨writes, head, finding, why, hreaches, htries, hundecodable, rfl⟩
    have hread := Finding.read_eq_error_iff.2 (Or.inr ⟨why, hundecodable, rfl⟩)
    exact hreaches.outcome_of_fails hstart
      (htries.iterate_of_hindered environment dryRun (.unreadable hread))
  · intro writes head finding problem hreaches htries hbytes
    have hwhy : Hindered head.files head.state.session.root finding
        (.file ⟨problem, (finding.file head.state.session.root).text⟩) :=
      .unreadable (Finding.read_eq_error_iff.2 (Or.inl ⟨problem, hbytes, rfl⟩))
    exact ⟨htries.iterate_of_hindered environment dryRun hwhy,
      hreaches.warning_mem hstart htries hwhy rfl⟩
  · cases hends with
    | fails _ hescapes =>
      rw [hcode] at hescapes
      cases hescapes
    | stops hstop hleft =>
      refine ⟨writes, last, hreaches, hleft, hstop, fun hbelow finding hfinding => ?_⟩
      exact hreaches.skippedBefore (Session.skipped_firstHead? hstart)
        (key_mem_skipped hstop hbelow hfinding)

/-! ## A missing file, and one that is no text -/

theorem carriesOut_of_hindered {fault : Fault}
    (h : Hindered head.files head.state.session.root finding fault) :
    head.CarriesOut environment finding := by
  intro text htext
  rw [fixedText_eq_error_iff.2 h] at htext
  cases htext

/-- An iteration that does not fail has carried out what was asked for. -/
theorem Tries.carriesOut (h : head.Tries limit finding)
    (hruns : ∀ fault left, head.iterate environment false limit ≠ .fails fault left) :
    head.CarriesOut environment finding := by
  have hattempted := h.attempted environment false
  generalize head.iterate environment false limit = step at hattempted hruns
  cases hattempted with
  | hindered hwhy => exact carriesOut_of_hindered hwhy
  | dry hdry => cases hdry
  | escapes => exact absurd rfl (hruns _ _)
  | unwritten => exact absurd rfl (hruns _ _)
  | unrefreshed => exact absurd rfl (hruns _ _)
  | written _ htext hwrite hrefresh =>
    intro text' htext'
    obtain rfl := Except.ok.inj (htext.symm.trans htext')
    exact ⟨_, _, hwrite, hrefresh⟩

/-- The first of two findings is about a missing file: it is skipped, and the other one is fixed. -/
theorem unreadable_files_are_skipped_missing_file :
    let fix : Fix := ⟨Range.of 1 1 1 2, "b"⟩
    let missing := oddFinding "a.txt" fix
    let files := (Host.singleFile "b.txt" "a\n").files
    let environment : Environment := { directory := [], root := [] }
    ∃ opened start, openOdd [missing, oddFinding "b.txt" fix] = .ok opened ∧
      opened.firstHead? environment files = some start ∧
      (opened.fixFindings environment false 5 files).1.outcome = .ok 1 ∧
      (opened.fixFindings environment false 5 files).2.onlyFile?
        = some ("b.txt", encodeUtf8 "b\n") ∧
      missing.warning environment (.file ⟨.notFound, "/a.txt"⟩)
        ∈ (opened.fixFindings environment false 5 files).1.events := by
  intro fix missing files environment
  have hrun : ((openOdd [missing, oddFinding "b.txt" fix]).toOption.bind fun opened =>
      (opened.firstHead? environment files).bind fun start =>
        match start.iterate environment false 5 with
        | .skips second =>
          match second.iterate environment false 5 with
          | .writes third =>
            match third.iterate environment false 5 with
            | .skips last =>
              match last.iterate environment false 5 with
              | .stops =>
                some (start.state.pending.head?.map (·.path), start.state.session.root)
              | _ => none
            | _ => none
          | _ => none
        | _ => none)
      = some (some "a.txt", []) := by
    decide +kernel
  have hends : ((openOdd [missing, oddFinding "b.txt" fix]).toOption.bind fun opened =>
      let ran := opened.fixFindings environment false 5 files
      some (ran.1.outcome.toOption, ran.2.onlyFile?))
      = some (some 1, some ("b.txt", encodeUtf8 "b\n")) := by
    decide +kernel
  obtain ⟨opened, hopened, hrun⟩ := Option.bind_eq_some_iff.1 hrun
  rw [hopened] at hends
  obtain ⟨hcode, hleft⟩ := Prod.mk.inj (Option.some.inj hends)
  obtain ⟨start, hstart, hrun⟩ := Option.bind_eq_some_iff.1 hrun
  split at hrun <;> try cases hrun
  next second hfirst =>
  split at hrun <;> try cases hrun
  next third hsecond =>
  split at hrun <;> try cases hrun
  next last hthird =>
  split at hrun <;> try cases hrun
  next hlast =>
  obtain ⟨hpath, hroot⟩ := Prod.mk.inj (Option.some.inj hrun)
  obtain ⟨first, htries, -⟩ := tries_of_skips hfirst
  rw [htries.first] at hpath
  have hpath : first.path = "a.txt" := Option.some.inj hpath
  have hclosed : ∀ head ∈ [start, second, third, last], ∀ next,
      GoesOn environment false 5 head next → next ∈ [start, second, third, last] := by
    simp only [List.forall_mem_cons, GoesOn, hfirst, hsecond, hthird, hlast]
    simp [eq_comm]
  have hruns : ∀ head ∈ [start, second, third, last], ∀ fault left,
      head.iterate environment false 5 ≠ .fails fault left := by
    simp [hfirst, hsecond, hthird, hlast]
  obtain ⟨-, hskipped, -⟩ := unreadable_files_are_skipped environment false 5 opened files start
    hstart fun _ writes head finding hreaches htries =>
      htries.carriesOut (hruns head (hreaches.mem_of_closed List.mem_cons_self hclosed))
  have hfile : first.file start.state.session.root = Path.ofText "/a.txt" := by
    rw [hroot, Finding.file, hpath]
    decide +kernel
  have hmissing : start.files.bytesAt (first.file start.state.session.root).parts
      = .error .notFound := by
    rw [hfile, (Session.eq_of_firstHead? hstart).1]
    rfl
  have htold := (hskipped 0 start first .notFound .refl htries hmissing).2
  rw [hfile, Finding.warning, hpath] at htold
  exact ⟨opened, start, toOption_eq_some.1 hopened, hstart, toOption_eq_some.1 hcode, hleft, htold⟩

/-- **A file that is no text ends the command.** The first of two findings is about a file whose
    only byte begins no character. All writes and refreshes are carried out, and yet the command
    fails there: the other finding is never tried, although its fix applies. -/
theorem undecodable_file_ends_fixing :
    let fix : Fix := ⟨Range.of 1 1 1 2, "b"⟩
    let files : Node := .directory [("a.txt", .file [255]), ("b.txt", .file (encodeUtf8 "a\n"))]
    let environment : Environment := { directory := [], root := [] }
    ∃ opened start fault other,
      openOdd [oddFinding "a.txt" fix, oddFinding "b.txt" fix] = .ok opened ∧
      opened.firstHead? environment files = some start ∧
      (∀ writes head finding, Reaches environment false 5 start writes head →
        head.Tries 5 finding → head.CarriesOut environment finding) ∧
      (opened.fixFindings environment false 5 files).1.outcome = .error (.decode fault) ∧
      other ∈ start.state.result.report.fixable ∧
      (fixedText files start.state.session.root other).outcome = .ok "b\n" ∧
      ∀ writes head, Reaches environment false 5 start writes head → ¬ head.Tries 5 other := by
  intro fix files environment
  have hrun : ((openOdd [oddFinding "a.txt" fix, oddFinding "b.txt" fix]).toOption.bind
      fun opened =>
      (opened.firstHead? environment files).bind fun start =>
        start.state.pending.head?.bind fun first =>
          start.state.result.report.fixable.getLast?.map fun other =>
            let tried := (fixedText files start.state.session.root first).outcome
            (((tried.map fun _ => true).tryCatch fun fault => .ok fault.isSkipped).toOption,
              first.path, other.path,
              (fixedText files start.state.session.root other).outcome.toOption))
      = some (some false, "a.txt", "b.txt", some "b\n") := by
    decide +kernel
  obtain ⟨opened, hopened, hrun⟩ := Option.bind_eq_some_iff.1 hrun
  obtain ⟨start, hstart, hrun⟩ := Option.bind_eq_some_iff.1 hrun
  obtain ⟨first, hfirst, hrun⟩ := Option.bind_eq_some_iff.1 hrun
  obtain ⟨other, hother, hrun⟩ := Option.map_eq_some_iff.1 hrun
  obtain ⟨hescapes, hrun⟩ := Prod.mk.inj hrun
  obtain ⟨hpath, hrun⟩ := Prod.mk.inj hrun
  obtain ⟨hotherPath, htext⟩ := Prod.mk.inj hrun
  obtain ⟨hfiles, happlied⟩ := Session.eq_of_firstHead? hstart
  have hwhy : ∃ fault, Hindered start.files start.state.session.root first (.decode fault) := by
    rw [hfiles]
    cases hfault : (fixedText files start.state.session.root first).outcome with
    | ok text =>
      rw [hfault] at hescapes
      cases hescapes
    | error escaped =>
      rw [hfault] at hescapes
      have hhindered := fixedText_eq_error_iff.1 hfault
      obtain ⟨fault, -, rfl⟩ := hhindered.undecodable (Option.some.inj hescapes)
      exact ⟨fault, hhindered⟩
  obtain ⟨fault, hwhy⟩ := hwhy
  have htries : start.Tries 5 first := ⟨by rw [happlied]; decide, hfirst⟩
  have hfails : start.iterate environment false 5 = .fails (.decode fault) start.files :=
    htries.iterate_of_hindered environment false hwhy
  refine ⟨opened, start, fault, other, toOption_eq_some.1 hopened, hstart, ?_,
    Reaches.refl.outcome_of_fails hstart hfails, List.mem_of_getLast? hother,
    toOption_eq_some.1 htext, ?_⟩
  · intro writes head finding hreaches htried
    obtain rfl := hreaches.eq_of_fails hfails
    obtain rfl := Option.some.inj (hfirst.symm.trans htried.first)
    exact carriesOut_of_hindered hwhy
  · intro writes head hreaches htried
    obtain rfl := hreaches.eq_of_fails hfails
    obtain rfl := Option.some.inj (hfirst.symm.trans htried.first)
    exact absurd (hpath.symm.trans hotherPath) (by decide)

end FixHead

end ProjectReview
