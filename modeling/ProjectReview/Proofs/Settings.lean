import ProjectReview.Config.Edit
import ProjectReview.Config.File
import ProjectReview.Proofs.Maps
import ProjectReview.Proofs.Outcomes

set_option autoImplicit false

/-! # Configurations that are worked on

A configuration is `Typed` when it has every setting, with a value of the setting's type. The
standard configuration is, and so is every configuration that is loaded, whatever the file holds
(`typed_complete`). Setting a setting from text and giving it its default back keep it so: they
replace the value of that setting by one of its type, in its place (`Typed.assigned`,
`Typed.reset_eq_ok`).

The steps that a configuration goes through are changes, saves and loads (`Step`). Each of them
leaves a typed configuration typed (`Step.typed`), and as it was if the step fails
(`Step.config_of_error`). The main result, `steps_keep_settings`, says this for any sequence of
steps, and what a change does. -/

namespace ProjectReview

/-! ## The settings -/

theorem nodup_settings : (settings.map Setting.key).Nodup := by
  decide

/-- Every default is of the type of its setting. -/
theorem admits_default : ∀ setting ∈ settings, setting.type.admits setting.default = true := by
  decide

theorem type_of_setting? :
    ∀ setting ∈ settings, (setting? setting.key).map Setting.type = some setting.type := by
  decide

theorem mem_of_setting? {key : String} {setting : Setting} (h : setting? key = some setting) :
    setting ∈ settings ∧ setting.key = key :=
  ⟨List.mem_of_find?_eq_some h, by simpa using List.find?_some h⟩

theorem SettingType.admits_list {value : Value} :
    SettingType.list.admits value = true ↔ ∃ items, value = .list items := by
  cases value <;> simp [admits]

namespace Config

/-- Every setting is there, with a value of its type. -/
def Typed (config : Config) : Prop :=
  ∀ setting ∈ settings, (config.get? setting.key).any setting.type.admits = true

theorem typed_standard : Typed standard := by
  unfold Typed
  decide

variable {config next : Config} {key raw : String} {setting : Setting}

/-- The value of a setting is of its type. -/
theorem Typed.value (h : config.Typed) (hsetting : setting? key = some setting) :
    ∃ value, config.get? key = some value ∧ setting.type.admits value = true := by
  obtain ⟨hmem, rfl⟩ := mem_of_setting? hsetting
  have hany := h setting hmem
  cases hvalue : config.get? setting.key with
  | none => simp [hvalue] at hany
  | some value => exact ⟨value, rfl, by simpa [hvalue] using hany⟩

theorem Typed.mem_keys (h : config.Typed) (hsetting : setting? key = some setting) :
    key ∈ config.keys := by
  obtain ⟨value, hvalue, -⟩ := h.value hsetting
  exact (Assoc.mem_keys_iff config key).2 ⟨value, hvalue⟩

/-- What is true of all settings stays so when one of them gets a value for which it is true. -/
theorem any_set {test : SettingType → Value → Bool}
    (h : ∀ setting ∈ settings, (config.get? setting.key).any (test setting.type) = true)
    (hsetting : setting? key = some setting) {value : Value}
    (hvalue : test setting.type value = true) :
    ∀ other ∈ settings,
      (Assoc.get? (config.set key value) other.key).any (test other.type) = true := by
  intro other hother
  rw [Assoc.get?_set]
  split
  · next hsame =>
    have htype := type_of_setting? other hother
    rw [← hsame, hsetting, Option.map_some] at htype
    rw [Option.any_some, ← Option.some.inj htype, hvalue]
  · exact h other hother

/-- A value of the setting's type keeps a configuration typed. -/
theorem Typed.set (h : config.Typed) (hsetting : setting? key = some setting) {value : Value}
    (hvalue : setting.type.admits value = true) : Typed (config.set key value) :=
  any_set h hsetting hvalue

/-! ## Configurations that are loaded -/

/-- The configuration with one setting completed. -/
def completeOne (config : Config) (setting : Setting) : Config :=
  if (config.get? setting.key).any setting.type.admits then config
  else config.set setting.key setting.default

theorem complete_eq (entries : Config) : complete entries = settings.foldl completeOne entries := by
  unfold complete
  congr 1
  funext config setting
  rw [completeOne]
  cases config.get? setting.key <;> simp

theorem get?_completeOne_of_ne (hkey : setting.key ≠ key) :
    (config.completeOne setting).get? key = config.get? key := by
  rw [completeOne]
  split
  · rfl
  · rw [Assoc.get?_set, if_neg hkey]

theorem any_completeOne (hdefault : setting.type.admits setting.default = true) :
    ((config.completeOne setting).get? setting.key).any setting.type.admits = true := by
  rw [completeOne]
  split
  · assumption
  · rw [Assoc.get?_set, if_pos rfl, Option.any_some, hdefault]

theorem get?_foldl_completeOne (chosen : List Setting) (config : Config)
    (hkey : key ∉ chosen.map Setting.key) :
    (chosen.foldl completeOne config).get? key = config.get? key := by
  induction chosen generalizing config with
  | nil => rfl
  | cons first rest ih =>
    rw [List.map_cons, List.mem_cons, not_or] at hkey
    rw [List.foldl_cons, ih _ hkey.2, get?_completeOne_of_ne fun hsame => hkey.1 hsame.symm]

theorem any_foldl_completeOne (chosen : List Setting) (hnodup : (chosen.map Setting.key).Nodup)
    (hdefaults : ∀ setting ∈ chosen, setting.type.admits setting.default = true) (config : Config) :
    ∀ setting ∈ chosen,
      ((chosen.foldl completeOne config).get? setting.key).any setting.type.admits = true := by
  induction chosen generalizing config with
  | nil => simp
  | cons first rest ih =>
    rw [List.map_cons, List.nodup_cons] at hnodup
    rw [List.forall_mem_cons] at hdefaults ⊢
    rw [List.foldl_cons]
    refine ⟨?_, ih hnodup.2 hdefaults.2 _⟩
    -- The settings that come after the first have other keys.
    rw [get?_foldl_completeOne rest _ hnodup.1]
    exact any_completeOne hdefaults.1

/-- **The entries of any document are completed to a typed configuration.** -/
theorem typed_complete (entries : Config) : Typed (complete entries) := by
  rw [complete_eq]
  exact any_foldl_completeOne settings nodup_settings admits_default entries

/-- A typed configuration needs no completion. -/
theorem Typed.complete_eq_self (h : config.Typed) : complete config = config := by
  have hfold : ∀ chosen : List Setting, (∀ setting ∈ chosen, setting ∈ settings) →
      chosen.foldl completeOne config = config := by
    intro chosen
    induction chosen with
    | nil => exact fun _ => rfl
    | cons first rest ih =>
      intro hchosen
      rw [List.forall_mem_cons] at hchosen
      rw [List.foldl_cons, completeOne, if_pos (h first hchosen.1), ih hchosen.2]
  rw [complete_eq]
  exact hfold settings fun _ hsetting => hsetting

theorem typed_of_load {root : Node} {directory : List String} {path : Path}
    (h : (load root directory path).outcome = .ok config) : config.Typed := by
  rw [load] at h
  split at h
  · split at h
    · next document _ =>
      rw [Journaled.outcome_bind] at h
      obtain ⟨entries, -, hconfig⟩ := bind_eq_ok.1 h
      rw [← Except.ok.inj hconfig]
      exact typed_complete entries
    · rw [← Except.ok.inj h]
      exact typed_complete []
  · rw [← Except.ok.inj h]
    exact typed_complete []

/-! ## Changes -/

theorem nonNegative_eq_ok {n : Int} :
    nonNegative key raw = .ok n ↔ readInteger raw = .ok n ∧ 0 ≤ n := by
  rw [nonNegative]
  cases readInteger raw with
  | error fault => simp
  | ok m =>
    by_cases hm : m < 0
    · simp only [hm, if_true]
      constructor
      · exact nofun
      · rintro ⟨hsame, hn⟩
        rw [Except.ok.inj hsame] at hm
        omega
    · simp only [hm, if_false]
      constructor
      · intro hsame
        rw [← Except.ok.inj hsame]
        exact ⟨rfl, by omega⟩
      · rintro ⟨hsame, -⟩
        rw [Except.ok.inj hsame]

theorem any_text?_iff (items : List Value) (item : String) :
    (items.any fun v => v.text? = some item) = true ↔ .text item ∈ items := by
  rw [List.any_eq_true]
  constructor
  · rintro ⟨value, hvalue, htext⟩
    cases value <;> simp [Value.text?] at htext
    rw [← htext]
    exact hvalue
  · exact fun hitem => ⟨_, hitem, by simp [Value.text?]⟩

/-- The value of a list setting with one more item, unless it has it already. -/
inductive Takes (items : List Value) (item : String) : List Value → Prop
  | present (mem : .text item ∈ items) : Takes items item items
  | added (new : .text item ∉ items) : Takes items item (items ++ [.text item])

theorem appendItem_takes (items : List Value) (item : String) :
    ∃ more, appendItem (.list items) item = .ok (.list more) ∧ Takes items item more := by
  rw [appendItem]
  split
  · next h => exact ⟨items, rfl, .present ((any_text?_iff items item).1 h)⟩
  · next h => exact ⟨_, rfl, .added fun hmem => h ((any_text?_iff items item).2 hmem)⟩

/-- An item that a list has taken in is in it. -/
theorem Takes.mem {items more : List Value} {item : String} (h : Takes items item more) :
    .text item ∈ more := by
  cases h with
  | present hmem => exact hmem
  | added _ => simp

theorem appendItem_of_mem {items : List Value} {item : String} (h : .text item ∈ items) :
    appendItem (.list items) item = .ok (.list items) := by
  rw [appendItem, if_pos ((any_text?_iff items item).2 h)]

/-- **How setting a setting of a typed configuration from text can end**: the outcome, and the
    configuration that is left. -/
inductive Assigned (config : Config) (key raw : String) : Except Fault Unit × Config → Prop
  | unknown (noSetting : setting? key = none) :
      Assigned config key raw (.error (.unknownKey key), config)
  | refused {setting : Setting} {fault : Fault} (known : setting? key = some setting)
      (integer : setting.type = .integer) (refuse : nonNegative key raw = .error fault) :
      Assigned config key raw (.error fault, config)
  | stored {setting : Setting} {n : Int} (known : setting? key = some setting)
      (integer : setting.type = .integer) (read : nonNegative key raw = .ok n) :
      Assigned config key raw (.ok (), config.set key (.int n))
  | taken {setting : Setting} {items more : List Value} (known : setting? key = some setting)
      (list : setting.type = .list) (before : config.get? key = some (.list items))
      (takes : Takes items raw more) :
      Assigned config key raw (.ok (), config.set key (.list more))

theorem Typed.assigned (h : config.Typed) (key raw : String) :
    Assigned config key raw ((assignInPlace key raw).result config) := by
  rw [assignInPlace_result]
  cases hsetting : setting? key with
  | none =>
    rw [assign_of_unknown hsetting]
    exact .unknown hsetting
  | some setting =>
    cases htype : setting.type with
    | integer =>
      rw [assign_of_integer hsetting htype]
      cases hread : nonNegative key raw with
      | error fault => exact .refused hsetting htype hread
      | ok n => exact .stored hsetting htype hread
    | list =>
      -- A typed configuration holds a list here, so an item can be added.
      obtain ⟨value, hvalue, hadmits⟩ := h.value hsetting
      rw [htype] at hadmits
      obtain ⟨items, rfl⟩ := SettingType.admits_list.1 hadmits
      obtain ⟨more, hmore, htakes⟩ := appendItem_takes items raw
      rw [assign_of_list hsetting htype, valueAt, hvalue, Option.getD_some, hmore]
      exact .taken hsetting htype hvalue htakes

/-- Nothing but the value of a key is different. -/
structure ChangedAt (key : String) (before after : Config) : Prop where
  keys : after.keys = before.keys
  others : ∀ other, other ≠ key → after.get? other = before.get? other

theorem changedAt_set (hkey : key ∈ config.keys) (value : Value) :
    ChangedAt key config (config.set key value) where
  keys := by rw [Assoc.keys_set, if_pos hkey]
  others := fun other hother => by rw [Assoc.get?_set, if_neg fun hsame => hother hsame.symm]

theorem Typed.assigned_typed (h : config.Typed) {outcome : Except Fault Unit}
    (hassigned : Assigned config key raw (outcome, next)) : next.Typed := by
  cases hassigned with
  | unknown => exact h
  | refused => exact h
  | stored known integer => exact h.set known (by rw [integer]; rfl)
  | taken known list => exact h.set known (by rw [list]; rfl)

/-- Setting a setting once more from the same text changes nothing. -/
theorem Assigned.again (hassigned : Assigned config key raw (.ok (), next)) :
    (assignInPlace key raw).result next = (.ok (), next) := by
  rw [assignInPlace_result]
  cases hassigned with
  | stored known integer read =>
    rw [assign_of_integer known integer, read]
    simp only [Except.map, inPlace, Assoc.set_set]
  | taken known list before takes =>
    rw [assign_of_list known list, valueAt, Assoc.get?_set, if_pos rfl, Option.getD_some,
      appendItem_of_mem takes.mem]
    simp only [Except.mapError, Except.map, inPlace, Assoc.set_set]

/-! ## Steps -/

/-- A configuration that is worked on, and the files beside it. -/
structure Work where
  config : Config
  files : Node

/-- A step of the work on a configuration. -/
inductive Step where
  | assign (key raw : String)
  | reset (key : String)
  | save (obstacles : Obstacles) (path : Path)
  | load (path : Path)

/-- Changes the configuration in place. -/
def Work.change (change : Action Config Unit) : Action Work Unit := fun work =>
  let (run, config) := change work.config
  (run, { work with config })

/-- Carries a step out; paths are read in a directory. -/
def Step.run (directory : List String) : Step → Action Work Unit
  | .assign key raw => Work.change (assignInPlace key raw)
  | .reset key => Work.change (resetInPlace key)
  | .save obstacles path => fun work =>
    let (files, outcome) := Config.save obstacles work.files directory path work.config
    (Journaled.ofExcept (outcome.mapError Fault.file), { work with files })
  | .load path => do
    let config ← Action.look fun work => Config.load work.files directory path
    Action.assign fun work => { work with config }

/-- The work after some steps, whether they fail or not. -/
def Work.after (directory : List String) (work : Work) (steps : List Step) : Work :=
  steps.foldl (fun work step => ((step.run directory).result work).2) work

theorem Work.result_of_change {change : Action Config Unit} {work left : Work}
    {outcome : Except Fault Unit} (h : (Work.change change).result work = (outcome, left)) :
    change.result work.config = (outcome, left.config) := by
  obtain ⟨rfl, rfl⟩ := Prod.mk.inj h
  rfl

/-- How a load ends: with what it gives, or with its failure and the configuration as it was. -/
theorem Step.result_load (directory : List String) (path : Path) (work : Work) :
    ((Step.load path).run directory).result work
      = match (Config.load work.files directory path).outcome with
        | .ok config => (.ok (), { work with config })
        | .error fault => (.error fault, work) := by
  rw [Step.run, Action.result_bind, Action.result_look]
  cases (Config.load work.files directory path).outcome <;> rfl

/-- **A step leaves a typed configuration typed.** -/
theorem Step.typed {work : Work} (h : work.config.Typed) (directory : List String) (step : Step) :
    ((step.run directory).result work).2.config.Typed := by
  cases step with
  | assign key raw => exact h.assigned_typed (h.assigned key raw)
  | reset key =>
    show Typed ((resetInPlace key).result work.config).2
    rw [resetInPlace_result]
    cases hsetting : setting? key with
    | none =>
      rw [reset_of_unknown hsetting]
      exact h
    | some setting =>
      rw [reset_of_setting hsetting]
      exact h.set hsetting (admits_default setting (mem_of_setting? hsetting).1)
  | save obstacles path => exact h
  | load path =>
    rw [result_load]
    split
    · next config hload => exact typed_of_load hload
    · exact h

theorem inPlace_error {changed : Except Fault Config} {fault : Fault}
    (h : config.inPlace changed = (.error fault, next)) : next = config := by
  cases changed with
  | error refusal => exact (Prod.mk.inj h).2.symm
  | ok left => cases (Prod.mk.inj h).1

/-- **A step that fails leaves the configuration as it was.** -/
theorem Step.config_of_error {work left : Work} {directory : List String} {step : Step}
    {fault : Fault} (h : (step.run directory).result work = (.error fault, left)) :
    left.config = work.config := by
  cases step with
  | assign key raw =>
    exact inPlace_error ((assignInPlace_result _ key raw).symm.trans (Work.result_of_change h))
  | reset key =>
    exact inPlace_error ((resetInPlace_result _ key).symm.trans (Work.result_of_change h))
  | save obstacles path => rw [← (Prod.mk.inj h).2]; rfl
  | load path =>
    rw [result_load] at h
    split at h
    · cases (Prod.mk.inj h).1
    · rw [(Prod.mk.inj h).2]

theorem Work.typed_after {work : Work} (h : work.config.Typed) (directory : List String)
    (steps : List Step) : (work.after directory steps).config.Typed := by
  induction steps generalizing work with
  | nil => exact h
  | cons step rest ih => exact ih (step.typed h directory)

/-- What a successful setting of a setting from text does. -/
structure AssignedFrom (key raw : String) (before after : Config) : Prop
    extends ChangedAt key before after where
  integer : ∀ setting, setting? key = some setting → setting.type = .integer →
    ∃ n, readInteger raw = .ok n ∧ 0 ≤ n ∧ after.get? key = some (.int n)
  list : ∀ setting, setting? key = some setting → setting.type = .list →
    ∃ items more, before.get? key = some (.list items) ∧ after.get? key = some (.list more) ∧
      (.text raw ∈ items ∧ more = items ∨ .text raw ∉ items ∧ more = items ++ [.text raw])
  again : (assignInPlace key raw).result after = (.ok (), after)

theorem Typed.assignedFrom (h : config.Typed) (hassigned : Assigned config key raw (.ok (), next)) :
    AssignedFrom key raw config next := by
  have hagain := hassigned.again
  cases hassigned with
  | @stored setting n known integer read =>
    refine ⟨changedAt_set (h.mem_keys known) _, fun _ _ _ => ?_, fun other hother hlist => ?_,
      hagain⟩
    · obtain ⟨hread, hn⟩ := nonNegative_eq_ok.1 read
      exact ⟨n, hread, hn, by rw [Assoc.get?_set, if_pos rfl]⟩
    · rw [← Option.some.inj (known.symm.trans hother), integer] at hlist
      cases hlist
  | @taken setting items more known list before takes =>
    refine ⟨changedAt_set (h.mem_keys known) _, fun other hother hinteger => ?_, fun _ _ _ => ?_,
      hagain⟩
    · rw [← Option.some.inj (known.symm.trans hother), list] at hinteger
      cases hinteger
    · refine ⟨items, more, before, by rw [Assoc.get?_set, if_pos rfl], ?_⟩
      cases takes with
      | present hmem => exact Or.inl ⟨hmem, rfl⟩
      | added hnew => exact Or.inr ⟨hnew, rfl⟩

/-- Setting a setting from text succeeds for lists, and for integers that can be read and are not
    negative. -/
theorem Typed.succeeds_assign_iff (h : config.Typed) :
    Succeeds ((assignInPlace key raw).result config).1 ↔
      ∃ setting, setting? key = some setting ∧
        (setting.type = .integer → ∃ n, readInteger raw = .ok n ∧ 0 ≤ n) := by
  have hassigned := h.assigned key raw
  generalize (assignInPlace key raw).result config = result at hassigned ⊢
  cases hassigned with
  | unknown noSetting => simp [not_succeeds_error, noSetting]
  | @refused setting fault known integer refuse =>
    refine iff_of_false (not_succeeds_error fault) ?_
    rintro ⟨other, hother, hread⟩
    rw [← Option.some.inj (known.symm.trans hother)] at hread
    obtain ⟨n, hn⟩ := hread integer
    rw [nonNegative_eq_ok.2 hn] at refuse
    cases refuse
  | @stored setting n known integer read =>
    exact iff_of_true (succeeds_ok ()) ⟨setting, known, fun _ => ⟨n, nonNegative_eq_ok.1 read⟩⟩
  | @taken setting items more known list =>
    refine iff_of_true (succeeds_ok ()) ⟨setting, known, fun integer => ?_⟩
    rw [list] at integer
    cases integer

/-- A successful reset gives the setting its default and changes nothing else. -/
theorem Typed.reset_eq_ok (h : config.Typed)
    (hreset : (resetInPlace key).result config = (.ok (), next)) :
    ChangedAt key config next ∧
      ∃ setting, setting? key = some setting ∧ next.get? key = some setting.default := by
  rw [resetInPlace_result] at hreset
  cases hsetting : setting? key with
  | none =>
    rw [reset_of_unknown hsetting] at hreset
    cases (Prod.mk.inj hreset).1
  | some setting =>
    rw [reset_of_setting hsetting] at hreset
    obtain rfl := (Prod.mk.inj hreset).2
    exact ⟨changedAt_set (h.mem_keys hsetting) _, setting, rfl, by rw [Assoc.get?_set, if_pos rfl]⟩

theorem succeeds_reset_iff : Succeeds ((resetInPlace key).result config).1 ↔
    ∃ setting, setting? key = some setting := by
  rw [resetInPlace_result]
  cases hsetting : setting? key with
  | none =>
    rw [reset_of_unknown hsetting]
    exact iff_of_false (not_succeeds_error _) (by simp)
  | some setting =>
    rw [reset_of_setting hsetting]
    exact iff_of_true (succeeds_ok ()) ⟨setting, rfl⟩

/-- **The work on a configuration.** It starts from the standard configuration or from one that was
    loaded, and goes on by any steps. At every point the configuration has every setting with a
    value of its type, and a step that fails leaves it as it was. Setting a setting from text
    succeeds for every list, and for an integer if the text is one that is not negative; it changes
    the value of that key alone and keeps the order of the keys. An integer is the one that was
    read; a list keeps its items in their order and has the new one behind them, unless it had it
    already; and doing the same once more changes nothing. Giving a setting its default back
    succeeds for every setting, and changes its value alone, too. -/
theorem steps_keep_settings (directory : List String) (start : Work)
    (hstart : start.config = standard ∨
      ∃ files place path, (Config.load files place path).outcome = .ok start.config)
    (steps : List Step) :
    let work := start.after directory steps
    work.config.Typed ∧
    (∀ step fault left, (Step.run directory step).result work = (.error fault, left) →
      left.config = work.config) ∧
    (∀ key raw, Succeeds ((Step.run directory (.assign key raw)).result work).1 ↔
      ∃ setting, setting? key = some setting ∧
        (setting.type = .integer → ∃ n, readInteger raw = .ok n ∧ 0 ≤ n)) ∧
    (∀ key raw left, (Step.run directory (.assign key raw)).result work = (.ok (), left) →
      AssignedFrom key raw work.config left.config) ∧
    (∀ key, Succeeds ((Step.run directory (.reset key)).result work).1 ↔
      ∃ setting, setting? key = some setting) ∧
    (∀ key left, (Step.run directory (.reset key)).result work = (.ok (), left) →
      ChangedAt key work.config left.config ∧
        ∃ setting, setting? key = some setting ∧ left.config.get? key = some setting.default) := by
  intro work
  have htyped : work.config.Typed := by
    refine Work.typed_after ?_ directory steps
    rcases hstart with hstandard | ⟨files, place, path, hload⟩
    · rw [hstandard]
      exact typed_standard
    · exact typed_of_load hload
  refine ⟨htyped, fun step fault left => Step.config_of_error,
    fun key raw => htyped.succeeds_assign_iff, fun key raw left hassign => ?_,
    fun key => succeeds_reset_iff, fun key left hreset => ?_⟩
  · have hresult : (assignInPlace key raw).result work.config = (.ok (), left.config) :=
      Work.result_of_change hassign
    exact htyped.assignedFrom (hresult ▸ htyped.assigned key raw)
  · exact htyped.reset_eq_ok (Work.result_of_change hreset)

/-- A file that holds a truth value for an integer, and a key that is no setting. After changes, a
    save and a load of the same file, the keys stand where they stood, the last change is there, and
    the integer can be given no negative value. -/
theorem steps_keep_settings_loaded :
    let document := "\x7b\"max_workers\": true, \"owner\": null, \"exclude\": [1]\x7d"
    let files := Node.directory [("c.json", .file (encodeUtf8 document))]
    let path := Path.ofText "c.json"
    let steps := [Step.assign "max_workers" "4", .save {} (Path.ofText "d.json"), .load path,
      .assign "exclude" "gen"]
    let negative := (Step.assign "max_workers" "-1").run []
    ∃ config, (Config.load files [] path).outcome = .ok config ∧
      let work := Work.after [] ⟨config, files⟩ steps
      work.config.keys.take 3 = ["max_workers", "owner", "exclude"] ∧
      (work.config.get? "exclude").map Value.listed = some "[1, 'gen']" ∧
      work.config.Typed ∧
      (negative.result work).1 = .error (.negative "max_workers" "-1") ∧
      (negative.result work).2.config = work.config := by
  intro document files path steps negative
  have hrun : ((Config.load files [] path).outcome.toOption.bind fun config =>
      let work := Work.after [] ⟨config, files⟩ steps
      some (work.config.keys.take 3, (work.config.get? "exclude").map Value.listed,
        (negative.result work).1))
      = some (["max_workers", "owner", "exclude"], some "[1, 'gen']",
          .error (.negative "max_workers" "-1")) := by
    decide +kernel
  obtain ⟨config, hload, hrun⟩ := Option.bind_eq_some_iff.1 hrun
  obtain ⟨hkeys, hrun⟩ := Prod.mk.inj (Option.some.inj hrun)
  obtain ⟨hexclude, hnegative⟩ := Prod.mk.inj hrun
  have hload := toOption_eq_some.1 hload
  obtain ⟨htyped, hfails, -⟩ :=
    steps_keep_settings [] ⟨config, files⟩ (Or.inr ⟨files, [], path, hload⟩) steps
  exact ⟨config, hload, hkeys, hexclude, htyped, hnegative,
    hfails _ _ _ (Prod.ext_iff.2 ⟨hnegative, rfl⟩)⟩

end Config

end ProjectReview
