import ProjectReview.Command.Run
import ProjectReview.Proofs.Reading
import ProjectReview.Proofs.Saving

set_option autoImplicit false

/-! # The config command changes the configuration that is kept in a file

The config command loads a configuration, changes it and saves it. What is in the file goes through
the same changes as a configuration in memory does: `Kept` says that a configuration is loaded from
the files, can be written and read again, and that the file can be written. A command keeps this for
the changed configuration, or it refuses the change and leaves the files as they are (`Kept.run`).

What is loaded can be written and read again if there are no fractional numbers in it
(`readable_of_load`), and no change brings any in (`Change.ends`). The main result,
`commands_refine_changes`, says this for any sequence of commands. -/

namespace ProjectReview

/-! ## Files that can be written -/

namespace Node

variable {files made left : Node} {parts above place : List String} {name : String} {old : Bytes}

/-- What has been stored stands where the path leads, if it leads anywhere. -/
theorem Stored.namesFile (h : Stored made above name place old left)
    (hexists : left.existsAt (above ++ [name]) = true) :
    NamesFile left above name place (.file old) := by
  obtain ⟨entries, inside⟩ := h.inside
  have hread : left.bytesAt (above ++ [name]) = .ok old :=
    bytesAt_eq_ok_iff.2 ⟨_, h.follow_of_existsAt hexists, h.get?_eq⟩
  obtain ⟨place', node, hnames⟩ := namesFile_of_bytesAt hread
  obtain ⟨entries', inside', -⟩ := hnames.inside
  have hkeeps := keepsWays_of_put inside name old
  rw [← h.put] at hkeeps
  obtain rfl : place' = place :=
    Except.ok.inj ((hkeeps.follow inside' hnames.way).symm.trans h.way)
  obtain rfl : node = .file old := Option.some.inj (hnames.get?_eq.symm.trans h.get?_eq)
  exact hnames

/-- Other content would have been stored in the same place. -/
theorem Stored.replaceIn_eq (h : Stored made above name place old left) (content : Bytes) :
    made.replaceIn {} place name content
      = (left.put (place ++ [name]) (.file content), .ok ()) := by
  obtain ⟨entries, inside⟩ := h.inside
  have hno : ∀ inner, Assoc.get? entries name ≠ some (.directory inner) := by
    intro inner
    rw [← get?_entry inside]
    exact h.noDirectory inner
  rw [replaceIn_of_noDirectory inside hno content, h.put, put_entry_twice inside]

/-- A file can be kept at the path: one is there, or one can be put there and is found there
    afterwards. -/
inductive CanHold (files : Node) (parts : List String) : Prop
  | file (named : parts ≠ []) {old : Bytes} (read : files.bytesAt parts = .ok old)
  | free (tree : files.isDirectory = true) {old : Bytes} {left : Node}
      (written : files.safeWrite {} parts old = (left, .ok ()))
      (found : left.existsAt parts = true)

/-- **What is written to a file that can be kept is there afterwards**, in a file that can be kept. -/
theorem CanHold.write (h : files.CanHold parts) (content : Bytes) :
    ∃ left, files.safeWrite {} parts content = (left, .ok ()) ∧
      left.bytesAt parts = .ok content ∧ left.CanHold parts := by
  cases h with
  | file named read =>
    obtain ⟨target, _, -, -, -, hwrite, hread⟩ := safeWrite_eq_put named read content
    exact ⟨_, hwrite, hread, .file named hread⟩
  | @free tree _ left written found =>
    -- Whether a write succeeds does not depend on what is written.
    obtain ⟨above, name, made, place, rfl, hmade, hstored⟩ := safeWrite_eq_ok tree written
    have hread := (hstored.namesFile found).bytesAt_put content
    refine ⟨left.put (place ++ [name]) (.file content), ?_, hread, .file (by simp) hread⟩
    simp only [safeWrite, List.dropLast_concat, hmade, hstored.way, List.getLast?_concat,
      if_neg hstored.proper, hstored.replaceIn_eq content]

end Node

namespace Config

variable {config next : Config} {files : Node}

/-! ## Configurations that can be written and read again -/

theorem plain_default {setting : Setting} (h : setting ∈ settings) : setting.default.Plain :=
  plain_standard (setting.key, setting.default) (List.mem_map.2 ⟨setting, h, rfl⟩)

theorem readable_complete {entries : Config} (h : Value.Readable (.table entries)) :
    Value.Readable (.table (complete entries)) := by
  have hfold : ∀ chosen : List Setting, (∀ setting ∈ chosen, setting ∈ settings) →
      ∀ config : Config, Value.Readable (.table config) →
        Value.Readable (.table (chosen.foldl completeOne config)) := by
    intro chosen
    induction chosen with
    | nil => exact fun _ _ hconfig => hconfig
    | cons first rest ih =>
      intro hchosen config hconfig
      rw [List.forall_mem_cons] at hchosen
      rw [List.foldl_cons]
      apply ih hchosen.2
      rw [completeOne]
      split
      · exact hconfig
      · exact hconfig.set first.key (plain_default hchosen.1).readable
  rw [complete_eq]
  exact hfold settings (fun _ hsetting => hsetting) entries h

theorem readable_ofDocument {name document : String} {entries : Config}
    (h : (ofDocument name document).outcome = .ok entries) : Value.Readable (.table entries) := by
  have hempty : Value.Readable (.table []) := .table List.nodup_nil (by simp)
  rw [ofDocument] at h
  split at h
  · next value hread =>
    obtain rfl : entriesOf value = entries := Except.ok.inj h
    have hreadable := Json.readable_of_read hread
    cases value with
    | table fields => exact hreadable
    | _ => exact hempty
  · cases h
  · rw [← Except.ok.inj h]
    exact hempty

/-- **Whatever the file holds, what is loaded from it is readable.** -/
theorem readable_of_load {directory : List String} {path : Path}
    (h : (load files directory path).outcome = .ok config) : Value.Readable (.table config) := by
  have hempty : Value.Readable (.table (complete [])) :=
    readable_complete (.table List.nodup_nil (by simp))
  rw [load] at h
  split at h
  · split at h
    · rw [Journaled.outcome_bind] at h
      obtain ⟨entries, hentries, hconfig⟩ := bind_eq_ok.1 h
      rw [← Except.ok.inj hconfig]
      exact readable_complete (readable_ofDocument hentries)
    · rw [← Except.ok.inj h]
      exact hempty
  · rw [← Except.ok.inj h]
    exact hempty

/-! ## Changes -/

/-- A change of a setting: it is set from text, or gets its default back. -/
inductive Change where
  | set (key raw : String)
  | unset (key : String)

namespace Change

/-- Makes the change on a configuration in memory. -/
def inMemory : Change → Action Config Unit
  | set key raw => assignInPlace key raw
  | unset key => resetInPlace key

/-- The configuration that results, or why the change is refused. -/
def changed (config : Config) : Change → Except Fault Config
  | set key raw => config.assign key raw
  | unset key => config.reset key

/-- What the config command is asked to do. -/
def action : Change → ConfigAction
  | set key raw => .set key raw
  | unset key => .unset key

theorem result_inMemory (config : Config) (change : Change) :
    change.inMemory.result config = config.inPlace (change.changed config) := by
  cases change with
  | set key raw => exact assignInPlace_result config key raw
  | unset key => exact resetInPlace_result config key

/-- The fault is one with which a change is refused. -/
def Refuses (fault : Fault) : Prop :=
  fault.label = "KeyError" ∨ fault.label = "ValueError"

theorem refuses_of_nonNegative {key raw : String} {fault : Fault}
    (h : nonNegative key raw = .error fault) : Refuses fault := by
  rw [nonNegative] at h
  split at h
  · rw [← Except.error.inj h]
    exact .inr rfl
  · split at h
    · rw [← Except.error.inj h]
      exact .inr rfl
    · cases h

/-- The items of a list that has taken one in are plain. -/
theorem plain_of_takes {items more : List Value} {item : String}
    (h : Value.Plain (.list items)) (htakes : Takes items item more) : Value.Plain (.list more) := by
  cases htakes with
  | present => exact h
  | added =>
    cases h with
    | list plain =>
      refine .list fun value hvalue => ?_
      rcases List.mem_append.1 hvalue with hold | hnew
      · exact plain value hold
      · rw [List.mem_singleton.1 hnew]
        exact .text item

theorem plain_of_assigned {key raw : String} (hplain : Value.Plain (.table config))
    {outcome : Except Fault Unit} (h : Assigned config key raw (outcome, next)) :
    Value.Plain (.table next) := by
  cases h with
  | unknown => exact hplain
  | refused => exact hplain
  | stored known integer read =>
    exact hplain.set key (.int (short_of_readInteger (nonNegative_eq_ok.1 read).1))
  | taken known list before takes =>
    refine hplain.set key ?_
    cases hplain with
    | table _ plain => exact plain_of_takes (plain _ (Assoc.mem_of_get? before)) takes

/-- **How a change of a plain configuration with all its settings ends**: it gives one again, or it
    is refused and leaves the configuration as it was. -/
inductive Ends (config : Config) (change : Change) : Prop
  | made {next : Config} (result : change.inMemory.result config = (.ok (), next))
      (typed : next.Typed) (plain : Value.Plain (.table next))
  | refused {fault : Fault} (result : change.inMemory.result config = (.error fault, config))
      (refuses : Refuses fault)

theorem ends (htyped : config.Typed) (hplain : Value.Plain (.table config)) (change : Change) :
    Ends config change := by
  cases change with
  | set key raw =>
    have hassigned := htyped.assigned key raw
    rcases hresult : (assignInPlace key raw).result config with ⟨outcome, next⟩
    rw [hresult] at hassigned
    have htyped' := htyped.assigned_typed hassigned
    have hplain' := plain_of_assigned hplain hassigned
    cases hassigned with
    | unknown => exact .refused hresult (.inl rfl)
    | refused _ _ refuse => exact .refused hresult (refuses_of_nonNegative refuse)
    | stored => exact .made hresult htyped' hplain'
    | taken => exact .made hresult htyped' hplain'
  | unset key =>
    have hresult := resetInPlace_result config key
    cases hsetting : setting? key with
    | none =>
      rw [reset_of_unknown hsetting] at hresult
      exact .refused hresult (.inl rfl)
    | some setting =>
      have hmem := (mem_of_setting? hsetting).1
      rw [reset_of_setting hsetting] at hresult
      exact .made hresult (htyped.set hsetting (admits_default setting hmem))
        (hplain.set key (plain_default hmem))

/-- What a change comes to in memory is what the command makes of it. -/
theorem changed_eq {change : Change} {outcome : Except Fault Unit}
    (h : change.inMemory.result config = (outcome, next)) :
    change.changed config = outcome.map fun _ => next := by
  rw [result_inMemory] at h
  cases hchanged : change.changed config with
  | ok other =>
    rw [hchanged] at h
    obtain ⟨rfl, rfl⟩ := Prod.mk.inj h
    rfl
  | error fault =>
    rw [hchanged] at h
    obtain ⟨rfl, -⟩ := Prod.mk.inj h
    rfl

end Change

/-! ## Commands -/

/-- The file that the program keeps the configuration in, given the option that names it. -/
def placeOf (environment : Environment) (given : Option String) : Path :=
  match given with
  | some text => if text = "" then environment.defaultConfig else Path.ofText text
  | none => environment.defaultConfig

/-- A call of the program with the config command. -/
def Change.run (environment : Environment) (given : Option String) (verbose : Bool)
    (change : Change) : FileAction ExitCode :=
  runInvocation environment ⟨given, verbose, .config change.action⟩

section Commands

variable {environment : Environment} {path : Path} {report : Config → String} {left : Node}

theorem result_onInterrupt {action : FileAction ExitCode} {code : ExitCode}
    (h : action.result files = (.ok code, left)) :
    (onInterrupt action).result files = (.ok code, left) := by
  rw [onInterrupt, Action.result_bind, Action.result_attempt, h]
  rfl

/-- A change that is made is saved. -/
theorem result_saveChange_ok
    (h : files.safeWrite {} (path.fromRoot environment.directory) (encodeUtf8 config.document)
      = (left, .ok ())) :
    (saveChange environment path (.ok config) report).result files = (.ok 0, left) := by
  have hwrite : (FileAction.write (path.fromRoot environment.directory)
      (encodeUtf8 config.document)).result files = (.ok (), left) := by
    rw [Action.result, FileAction.write, h]
    rfl
  rw [saveChange, Action.result_bind, hwrite]
  rfl

/-- A change that is refused is reported, and nothing is written. -/
theorem result_saveChange_error {fault : Fault} (h : Change.Refuses fault) :
    (saveChange environment path (.error fault) report).result files = (.ok 2, files) := by
  have hrefuses : fault.label = "KeyError" ∨ fault.label = "ValueError" := h
  rw [saveChange, if_pos hrefuses]
  rfl

theorem Change.runConfig_eq (environment : Environment) (path : Path) (config : Config)
    (change : Change) :
    ∃ report, runConfig environment path config change.action
      = saveChange environment path (change.changed config) report := by
  cases change with
  | set key raw => exact ⟨_, rfl⟩
  | unset key => exact ⟨_, rfl⟩

/-- The command loads the configuration before it changes it. -/
theorem Change.run_eq (environment : Environment) (given : Option String) (verbose : Bool)
    (change : Change) :
    change.run environment given verbose = (do
      let config ← Action.look fun files =>
        load files environment.directory (placeOf environment given)
      onInterrupt (runConfig environment (placeOf environment given) config change.action)) :=
  rfl

/-- The configuration is the one that is loaded from a file, it can be written and read again, and
    the file can be written. -/
structure Kept (environment : Environment) (path : Path) (files : Node) (config : Config) :
    Prop where
  loaded : (load files environment.directory path).outcome = .ok config
  plain : Value.Plain (.table config)
  place : files.CanHold (path.fromRoot environment.directory)

/-- A configuration that is written to a file that can be kept is kept there. -/
theorem kept_of_write (htyped : config.Typed) (hplain : Value.Plain (.table config))
    (hplace : files.CanHold (path.fromRoot environment.directory)) :
    ∃ left, files.safeWrite {} (path.fromRoot environment.directory) (encodeUtf8 config.document)
      = (left, .ok ()) ∧ Kept environment path left config := by
  obtain ⟨left, hwrite, hread, hleft⟩ := hplace.write (encodeUtf8 config.document)
  obtain ⟨target, hway, hfile⟩ := Node.bytesAt_eq_ok_iff.1 hread
  have hload := htyped.load_of_document hplain hway hfile
  exact ⟨left, hwrite, by rw [hload]; rfl, hplain, hleft⟩

/-- **How a call of the config command ends**: the change is made, in the file as in memory, or it is
    refused and the files stay as they are. -/
inductive Change.Runs (environment : Environment) (given : Option String) (verbose : Bool)
    (files : Node) (config : Config) (change : Change) : Prop
  | made {next : Config} {left : Node}
      (memory : change.inMemory.result config = (.ok (), next))
      (command : (change.run environment given verbose).result files = (.ok 0, left))
      (kept : Kept environment (placeOf environment given) left next)
  | refused {fault : Fault}
      (memory : change.inMemory.result config = (.error fault, config))
      (refuses : Refuses fault)
      (command : (change.run environment given verbose).result files = (.ok 2, files))

theorem Kept.run {given : Option String}
    (h : Kept environment (placeOf environment given) files config) (verbose : Bool)
    (change : Change) : change.Runs environment given verbose files config := by
  obtain ⟨report, hconfig⟩ := change.runConfig_eq environment (placeOf environment given) config
  have hrun : (change.run environment given verbose).result files
      = (onInterrupt (saveChange environment (placeOf environment given) (change.changed config)
          report)).result files := by
    rw [← hconfig, Change.run_eq, Action.result_bind, Action.result_look, h.loaded]
  cases change.ends (typed_of_load h.loaded) h.plain with
  | @made next memory typed plain =>
    obtain ⟨left, hwrite, hkept⟩ := kept_of_write typed plain h.place
    refine .made memory ?_ hkept
    rw [hrun, Change.changed_eq memory]
    exact result_onInterrupt (result_saveChange_ok hwrite)
  | refused memory refuses =>
    refine .refused memory refuses ?_
    rw [hrun, Change.changed_eq memory]
    exact result_onInterrupt (result_saveChange_error refuses)

end Commands

/-- The files after some calls of the config command, whether they fail or not. -/
def filesAfter (environment : Environment) (given : Option String) (verbose : Bool) (files : Node)
    (changes : List Change) : Node :=
  changes.foldl (fun files change => ((change.run environment given verbose).result files).2) files

/-- The configuration after some changes in memory, whether they fail or not. -/
def configAfter (config : Config) (changes : List Change) : Config :=
  changes.foldl (fun config change => (change.inMemory.result config).2) config

/-- **Commands keep in the file what changes make in memory.** -/
theorem Kept.after {environment : Environment} {given : Option String}
    (h : Kept environment (placeOf environment given) files config) (verbose : Bool)
    (changes : List Change) :
    Kept environment (placeOf environment given)
      (filesAfter environment given verbose files changes) (configAfter config changes) := by
  induction changes generalizing files config with
  | nil => exact h
  | cons change rest ih =>
    rw [filesAfter, configAfter, List.foldl_cons, List.foldl_cons]
    cases h.run verbose change with
    | made memory command kept =>
      rw [memory, command]
      exact ih kept
    | refused memory _ command =>
      rw [memory, command]
      exact ih h

/-- **The config command refines the changes in memory.** Where a configuration without fractional
    numbers is loaded from a file, or from no file in a place where one can be written, any sequence
    of commands leaves a file from which the configuration is loaded that the same changes give in
    memory. A further command exits with 2 and leaves the files as they are just if the change is
    refused in memory, for a setting that does not exist or a value that does not fit, and with 0
    just if it is not. A change that is refused leaves the configuration in memory as it is. -/
theorem commands_refine_changes (environment : Environment) (given : Option String) (verbose : Bool)
    (hload : (load files environment.directory (placeOf environment given)).outcome = .ok config)
    (hfree : Value.FloatFree (.table config))
    (hplace : files.CanHold ((placeOf environment given).fromRoot environment.directory))
    (changes : List Change) :
    let left := filesAfter environment given verbose files changes
    let kept := configAfter config changes
    (load left environment.directory (placeOf environment given)).outcome = .ok kept ∧
    ∀ change : Change,
      let command := (change.run environment given verbose).result left
      let memory := change.inMemory.result kept
      let refused := ∃ fault, memory.1 = .error fault ∧
        (fault.label = "KeyError" ∨ fault.label = "ValueError")
      (command.1 = .ok 2 ∧ command.2 = left ↔ refused) ∧ (command.1 = .ok 0 ↔ ¬ refused) ∧
      (refused → memory.2 = kept) := by
  intro left kept
  have hstart : Kept environment (placeOf environment given) files config :=
    ⟨hload, (readable_of_load hload).plain hfree, hplace⟩
  have hkept := hstart.after verbose changes
  refine ⟨hkept.loaded, fun change => ?_⟩
  dsimp only
  cases hkept.run verbose change with
  | made memory command _ =>
    rw [command, memory]
    have haccepted : ¬ ∃ fault, (Except.ok () : Except Fault Unit) = .error fault ∧
        (fault.label = "KeyError" ∨ fault.label = "ValueError") := by
      rintro ⟨fault, hfault, -⟩
      cases hfault
    refine ⟨iff_of_false ?_ haccepted, iff_of_true rfl haccepted, fun h => absurd h haccepted⟩
    rintro ⟨hcode, -⟩
    cases hcode
  | @refused fault memory refuses command =>
    rw [command, memory]
    have hrefused : ∃ other, (Except.error fault : Except Fault Unit) = .error other ∧
        (other.label = "KeyError" ∨ other.label = "ValueError") := ⟨fault, rfl, refuses⟩
    refine ⟨iff_of_true ⟨rfl, rfl⟩ hrefused, iff_of_false ?_ (not_not.2 hrefused), fun _ => rfl⟩
    intro hcode
    cases hcode

/-- Commands in an empty directory: the first one makes the file, the second one is refused, and the
    third one takes the digit of another script. -/
theorem commands_refine_changes_new_file :
    let environment : Environment := { directory := [], root := [] }
    let path := placeOf environment none
    let changes := [Change.set "exclude" "gen", .set "max_workers" "-1", .set "max_workers" "٤"]
    let left := filesAfter environment none false (.directory []) changes
    let kept := configAfter standard changes
    (Node.directory []).existsAt (path.fromRoot []) = false ∧
    (kept.get? "exclude").map Value.listed = some "['gen']" ∧
    (kept.get? "max_workers").map Value.listed = some "4" ∧
    (load left [] path).outcome = .ok kept ∧
    let command := ((Change.set "max_workers" "-1").run environment none false).result left
    command.1 = .ok 2 ∧ command.2 = left := by
  intro environment path changes left kept
  have hload : (load (.directory []) [] path).outcome = .ok standard := rfl
  have hfree : Value.FloatFree (.table standard) :=
    .table fun entry hentry => (plain_standard entry hentry).floatFree
  have hwritten : (Node.directory []).safeWrite {} (path.fromRoot []) [] = (_, .ok ()) := rfl
  have hplace : (Node.directory []).CanHold (path.fromRoot []) := .free rfl hwritten rfl
  have hmemory : (((Change.set "max_workers" "-1").inMemory.result kept).1,
      (kept.get? "exclude").map Value.listed, (kept.get? "max_workers").map Value.listed)
      = (.error (.negative "max_workers" "-1"), some "['gen']", some "4") := by
    decide +kernel
  obtain ⟨hrefused, hmemory⟩ := Prod.mk.inj hmemory
  obtain ⟨hexclude, hworkers⟩ := Prod.mk.inj hmemory
  obtain ⟨hloaded, hcommand⟩ :=
    commands_refine_changes environment none false hload hfree hplace changes
  obtain ⟨⟨-, hcommand⟩, -, -⟩ := hcommand (.set "max_workers" "-1")
  exact ⟨rfl, hexclude, hworkers, hloaded, hcommand ⟨_, hrefused, .inr rfl⟩⟩

end Config

end ProjectReview
