import ProjectReview.Proofs.Addresses

set_option autoImplicit false

/-! # Exclusions, component by component

An exclusion is compared with a path as text: with the whole path, with its components, and with the
start of it up to a slash. The text of a path of components, and that of an exclusion with whatever
slashes behind it, can be cut at the slashes again (`cutAt_slashed`), so each of the three
comparisons is one of lists of components: equality (`slashed_inj`), membership
(`mem_components_iff`) and the relation of a list to a longer one that it starts
(`slashed_isPrefix_iff`).

The main result, `matches_whole_components`, puts the three together. -/

namespace ProjectReview

/-! ## Paths of components -/

/-- A component of a path: not empty, no single dot, and without anything that separates components.
-/
structure IsComponent (name : String) : Prop where
  nonempty : name ≠ ""
  noSlash : '/' ∉ name.toList
  noBackslash : '\x5c' ∉ name.toList
  noDot : name ≠ "."

instance (name : String) : Decidable (IsComponent name) :=
  decidable_of_iff (name ≠ "" ∧ '/' ∉ name.toList ∧ '\x5c' ∉ name.toList ∧ name ≠ ".")
    ⟨fun ⟨nonempty, noSlash, noBackslash, noDot⟩ => ⟨nonempty, noSlash, noBackslash, noDot⟩,
      fun ⟨nonempty, noSlash, noBackslash, noDot⟩ => ⟨nonempty, noSlash, noBackslash, noDot⟩⟩

/-- What stands between two components. -/
inductive Separator where
  | slash
  | backslash
deriving DecidableEq, Repr

/-- The separator as text. -/
def Separator.text : Separator → String
  | slash => "/"
  | backslash => "\x5c"

/-- The path of a first component and further ones, each behind a separator. -/
def separatedPath (first : String) : List (Separator × String) → String
  | [] => first
  | (separator, name) :: rest => first ++ separator.text ++ separatedPath name rest

/-- That many slashes. -/
def slashes (count : Nat) : String :=
  String.ofList (List.replicate count '/')

variable {names others rule : List String}

theorem slashed_cons (name : String) (h : others ≠ []) :
    Path.slashed (name :: others) = name ++ "/" ++ Path.slashed others := by
  rw [Path.slashed, joinTexts]
  · rfl
  · exact h

theorem slashed_append (hnames : names ≠ []) (hothers : others ≠ []) :
    Path.slashed (names ++ others) = Path.slashed names ++ "/" ++ Path.slashed others := by
  induction names with
  | nil => exact absurd rfl hnames
  | cons name rest ih =>
    by_cases hrest : rest = []
    · subst hrest
      exact slashed_cons name hothers
    · rw [List.cons_append, slashed_cons name (List.append_ne_nil_of_left_ne_nil hrest others),
        ih hrest, slashed_cons name hrest]
      simp only [String.append_assoc]

/-- A path is seen with slashes for its separators. -/
theorem forwardSlashes_separatedPath {first : String} {rest : List (Separator × String)}
    (h : ∀ name ∈ first :: rest.map (·.2), '\x5c' ∉ name.toList) :
    forwardSlashes (separatedPath first rest) = Path.slashed (first :: rest.map (·.2)) := by
  induction rest generalizing first with
  | nil => exact (forwardSlashes_eq_self_iff first).2 (h first (by simp))
  | cons entry rest ih =>
    obtain ⟨separator, name⟩ := entry
    obtain ⟨hfirst, hrest⟩ := List.forall_mem_cons.1 h
    have hseparator : forwardSlashes separator.text = "/" := by cases separator <;> rfl
    rw [List.map_cons, slashed_cons first (List.cons_ne_nil _ _), ← ih hrest, separatedPath,
      forwardSlashes_append, forwardSlashes_append, hseparator,
      (forwardSlashes_eq_self_iff first).2 hfirst]

/-- Cutting the path of some components at its slashes gives them back. -/
theorem cutAt_slashed (hnames : names ≠ []) (h : ∀ name ∈ names, '/' ∉ name.toList) :
    cutAt '/' (Path.slashed names).toList = names.map String.toList := by
  rcases List.eq_nil_or_concat' names with rfl | ⟨directories, name, rfl⟩
  · exact absurd rfl hnames
  · exact @Address.cutAt_path ⟨directories, name⟩ h

theorem slashed_inj (hnames : names ≠ []) (h : ∀ name ∈ names, '/' ∉ name.toList)
    (hothers : others ≠ []) (h' : ∀ name ∈ others, '/' ∉ name.toList) :
    Path.slashed names = Path.slashed others ↔ names = others := by
  refine ⟨fun heq => ?_, fun heq => by rw [heq]⟩
  have hcut := cutAt_slashed hnames h
  rw [heq, cutAt_slashed hothers h'] at hcut
  exact (List.map_injective_iff.2 (fun _ _ => String.toList_inj.1) hcut).symm

/-- A path starts with that of other components and a slash just if it goes on behind them. -/
theorem slashed_isPrefix_iff (hrule : rule ≠ []) (h : ∀ name ∈ rule, '/' ∉ name.toList)
    (hnames : names ≠ []) (h' : ∀ name ∈ names, '/' ∉ name.toList) :
    (Path.slashed rule ++ "/").toList <+: (Path.slashed names).toList ↔
      ∃ others, others ≠ [] ∧ names = rule ++ others := by
  constructor
  · rintro ⟨rest, hrest⟩
    -- What follows the slash is cut into the components behind those of the rule.
    have hcut := cutAt_slashed hnames h'
    rw [← hrest, String.toList_append, List.append_assoc,
      show "/".toList ++ rest = '/' :: rest from rfl, cutAt_append_cons, cutAt_slashed hrule h]
      at hcut
    have hnames := congrArg (List.map String.ofList) hcut.symm
    simp only [List.map_append, List.map_map, Function.comp_def, String.ofList_toList,
      List.map_id'] at hnames
    exact ⟨_, by simpa using cutAt_ne_nil '/' rest, hnames⟩
  · rintro ⟨others, hothers, rfl⟩
    rw [slashed_append hrule hothers]
    exact toList_isPrefix_append _ _

/-- The components of a path are those it is made of. -/
theorem pathParts_slashed (hnames : names ≠ []) (h : ∀ name ∈ names, IsComponent name) :
    pathParts (Path.slashed names) = names := by
  have hcut := cutAt_slashed hnames fun name hname => (h name hname).noSlash
  have hroot : rootOf (Path.slashed names).toList = [] := by
    -- A root would come with a slash in front, and so with an empty first component.
    refine List.eq_nil_iff_forall_not_mem.2 fun component hcomponent => ?_
    obtain ⟨⟨rest, hrest⟩, -⟩ := mem_rootOf hcomponent
    rw [← hrest, show ['/'] ++ rest = [] ++ '/' :: rest from rfl, cutAt_append_cons] at hcut
    have hempty : [] ∈ names.map String.toList := hcut ▸ List.mem_append_left _ (by simp [cutAt])
    obtain ⟨name, hname, hnil⟩ := List.mem_map.1 hempty
    exact (h name hname).nonempty (String.toList_inj.1 hnil)
  have hproper : ∀ piece ∈ names.map String.toList,
      decide (piece ≠ [] ∧ piece ≠ ['.']) = true := by
    intro piece hpiece
    obtain ⟨name, hname, rfl⟩ := List.mem_map.1 hpiece
    rw [decide_eq_true_eq]
    exact ⟨fun hnil => (h name hname).nonempty (String.toList_inj.1 hnil),
      fun hdot => (h name hname).noDot (String.toList_inj.1 hdot)⟩
  rw [pathParts, hroot, hcut, List.filter_eq_self.2 hproper, List.nil_append, List.map_map]
  simp [Function.comp_def]

/-! ## Exclusions of components -/

theorem withoutTrailingSlashes_append_slashes (text : String) (count : Nat) :
    withoutTrailingSlashes (text ++ slashes count) = withoutTrailingSlashes text := by
  rw [withoutTrailingSlashes, withoutTrailingSlashes, slashes, String.toList_append,
    String.toList_ofList, List.reverse_append, List.reverse_replicate]
  congr 2
  induction count with
  | zero => rfl
  | succ count ih => rw [List.replicate_succ, List.cons_append, List.dropWhile_cons_of_pos rfl, ih]

/-- A rule of components does not end with a slash of its own. -/
theorem withoutTrailingSlashes_slashed (hrule : rule ≠ [])
    (h : ∀ name ∈ rule, name ≠ "" ∧ '/' ∉ name.toList) :
    withoutTrailingSlashes (Path.slashed rule) = Path.slashed rule := by
  rcases List.eq_nil_or_concat' rule with rfl | ⟨above, last, rfl⟩
  · exact absurd rfl hrule
  · obtain ⟨hempty, hslash⟩ := h last (by simp)
    have hchars : last.toList ≠ [] := fun hnil => hempty (String.toList_inj.1 hnil)
    apply withoutTrailingSlashes_of_getLast?
    rw [slashed_concat, String.toList_append, List.getLast?_append_of_ne_nil _ hchars]
    exact fun hlast => hslash (List.mem_of_getLast? hlast)

/-- An exclusion has no slash just if it is a single component with none behind it. -/
theorem slash_not_mem_iff (hrule : rule ≠ []) (h : ∀ name ∈ rule, '/' ∉ name.toList)
    (trailing : Nat) :
    '/' ∉ (Path.slashed rule ++ slashes trailing).toList ↔
      trailing = 0 ∧ ∃ name, rule = [name] := by
  rw [String.toList_append, List.mem_append, not_or, slashes, String.toList_ofList,
    List.mem_replicate, and_comm]
  refine and_congr (by simp) ?_
  constructor
  · intro hslash
    have hcut := cutAt_slashed hrule h
    rw [cutAt_of_not_mem hslash] at hcut
    exact List.length_eq_one_iff.1 (by simpa using (congrArg List.length hcut).symm)
  · rintro ⟨name, rfl⟩
    exact h name (by simp)

/-- An exclusion is among components without slashes just if it is one of them. -/
theorem mem_components_iff (hrule : rule ≠ []) (h : ∀ name ∈ rule, '/' ∉ name.toList)
    (trailing : Nat) (h' : ∀ name ∈ names, '/' ∉ name.toList) :
    Path.slashed rule ++ slashes trailing ∈ names ↔
      trailing = 0 ∧ ∃ name, rule = [name] ∧ name ∈ names := by
  constructor
  · intro hmem
    obtain ⟨rfl, name, rfl⟩ := (slash_not_mem_iff hrule h trailing).1 (h' _ hmem)
    exact ⟨rfl, name, rfl, by simpa [slashes, Path.slashed, joinTexts] using hmem⟩
  · rintro ⟨rfl, name, rfl, hmem⟩
    simpa [slashes, Path.slashed, joinTexts] using hmem

/-- **Exclusions match whole components.** Let a path be made of components with slashes or
    backslashes between them, and an exclusion of components with slashes between them and any
    number of slashes behind. The exclusion matches the path just if it is a single component
    without a slash and one of those of the path, or if its components are the first ones of the
    path. So all components of an exclusion that matches are components of the path. -/
theorem matches_whole_components (first : String) (rest : List (Separator × String))
    (rule : List String) (trailing : Nat)
    (hpath : ∀ name ∈ first :: rest.map (·.2), IsComponent name) (hrule : rule ≠ [])
    (hcomponents : ∀ name ∈ rule, name ≠ "" ∧ '/' ∉ name.toList) :
    let names := first :: rest.map (·.2)
    let matched := matchesExclusion (separatedPath first rest)
      (Path.slashed rule ++ slashes trailing)
    (matched = true ↔ (rule.length = 1 ∧ trailing = 0 ∧ rule.head hrule ∈ names) ∨
      rule <+: names) ∧
    (matched = true → ∀ name ∈ rule, name ∈ names) := by
  intro names matched
  have hnames : names ≠ [] := List.cons_ne_nil _ _
  have hrules : ∀ name ∈ rule, '/' ∉ name.toList := fun name hname => (hcomponents name hname).2
  have hslashes : ∀ name ∈ names, '/' ∉ name.toList := fun name hname => (hpath name hname).noSlash
  have hmatched : matched = true ↔ names = rule ∨
      (trailing = 0 ∧ ∃ name, rule = [name] ∧ name ∈ names) ∨
      '/' ∈ (Path.slashed rule ++ slashes trailing).toList ∧
        ∃ others, others ≠ [] ∧ names = rule ++ others := by
    simp only [matched, matchesExclusion, Bool.or_eq_true, Bool.and_eq_true, decide_eq_true_eq,
      List.contains_iff_mem, List.isPrefixOf_iff_prefix, or_assoc]
    rw [forwardSlashes_separatedPath fun name hname => (hpath name hname).noBackslash,
      withoutTrailingSlashes_append_slashes, withoutTrailingSlashes_slashed hrule hcomponents,
      pathParts_slashed hnames hpath, slashed_inj hnames hslashes hrule hrules,
      mem_components_iff hrule hrules trailing hslashes,
      slashed_isPrefix_iff hrule hrules hnames hslashes]
  have hiff : matched = true ↔ (rule.length = 1 ∧ trailing = 0 ∧ rule.head hrule ∈ names) ∨
      rule <+: names := by
    rw [hmatched]
    constructor
    · rintro (hsame | ⟨htrailing, name, rfl, hname⟩ | ⟨-, others, -, hothers⟩)
      · exact Or.inr (hsame ▸ List.prefix_rfl)
      · exact Or.inl ⟨rfl, htrailing, hname⟩
      · exact Or.inr ⟨others, hothers.symm⟩
    · rintro (⟨hlength, htrailing, hname⟩ | ⟨others, hothers⟩)
      · obtain ⟨name, rfl⟩ := List.length_eq_one_iff.1 hlength
        exact Or.inr (Or.inl ⟨htrailing, name, rfl, hname⟩)
      · by_cases hmore : others = []
        · exact Or.inl (by rw [← hothers, hmore, List.append_nil])
        · by_cases hslash : '/' ∈ (Path.slashed rule ++ slashes trailing).toList
          · exact Or.inr (Or.inr ⟨hslash, others, hmore, hothers.symm⟩)
          · -- Without a slash, the exclusion is the first component.
            obtain ⟨htrailing, name, rfl⟩ := (slash_not_mem_iff hrule hrules trailing).1 hslash
            exact Or.inr (Or.inl ⟨htrailing, name, rfl, by simp [← hothers]⟩)
  refine ⟨hiff, fun htrue name hname => ?_⟩
  rcases hiff.1 htrue with ⟨hlength, -, hhead⟩ | hprefix
  · obtain ⟨single, rfl⟩ := List.length_eq_one_iff.1 hlength
    rw [List.mem_singleton.1 hname]
    exact hhead
  · exact hprefix.subset hname

/-- A path with both separators: a rule of its first two components matches with slashes behind it,
    and one that ends inside the second component does not. -/
theorem matches_whole_components_mixed :
    (∀ name ∈ ["src", "gen", "x.py"], IsComponent name) ∧
    matchesExclusion "src\x5cgen/x.py" "src/gen//" = true ∧
    matchesExclusion "src\x5cgen/x.py" "src/ge" = false := by
  let rest := [(Separator.backslash, "gen"), (Separator.slash, "x.py")]
  have hpath : ∀ name ∈ "src" :: rest.map (·.2), IsComponent name := by decide
  have hwhole := matches_whole_components "src" rest ["src", "gen"] 2 hpath (by decide) (by decide)
  have hinside := matches_whole_components "src" rest ["src", "ge"] 0 hpath (by decide) (by decide)
  refine ⟨hpath, hwhole.1.2 (Or.inr (by decide)), ?_⟩
  rw [← Bool.not_eq_true]
  intro hmatched
  rcases hinside.1.1 hmatched with ⟨hlength, -⟩ | hprefix
  · exact absurd hlength (by decide)
  · exact absurd hprefix (by decide)

end ProjectReview
