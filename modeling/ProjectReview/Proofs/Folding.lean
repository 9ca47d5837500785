import Mathlib.Data.List.ReduceOption
import ProjectReview.Proofs.Inspecting

set_option autoImplicit false

/-! # Knowledge folded in groups

The knowledge of a project is folded twice: what the inspectors find in one part becomes the
knowledge of that part, and the knowledge of all parts becomes that of the project. At both levels
something may be missing, and there is no neutral element to put in its place.

`Condenses merge values flat` says that some values, missing ones among them, stand for a flat list:
they are folded to the same whatever comes before them, and all of them are missing just when the
list is empty. Values that stand for lists side by side stand for the lists put together
(`Condenses.append`), and, where merging is associative, the fold of a list stands for it
(`Condenses.of_fold`). From this the relation is carried from the inspectors of one part (`Drawn`)
to the whole cache.

The main result, `aggregate_folds_outputs`, says that the knowledge of a project that is looked at
for the first time is the plain fold of all that its inspectors find. -/

namespace ProjectReview

variable {ε K : Type} {merge : K → K → Except ε K}

/-! ## Plain folds -/

/-- Of three values it does not matter which neighbours are merged first. -/
def AssociativeMerge (merge : K → K → Except ε K) : Prop :=
  ∀ a b c, (merge a b).bind (merge · c) = (merge b c).bind (merge a)

/-- The order of two values does not matter. -/
def CommutativeMerge (merge : K → K → Except ε K) : Prop :=
  ∀ a b, merge a b = merge b a

/-- The values merged from the left; nothing if there is no value. -/
def foldFlat (merge : K → K → Except ε K) : List K → Except ε (Option K)
  | [] => .ok none
  | first :: rest => (rest.foldlM merge first).map some

theorem foldlM_some (first : K) (rest : List K) :
    (rest.map some).foldlM (foldStep merge) (some first) = (rest.foldlM merge first).map some := by
  induction rest generalizing first with
  | nil => rfl
  | cons value rest ih =>
    rw [List.map_cons, List.foldlM_cons, List.foldlM_cons]
    show ((merge first value).map some).bind _ = Except.map some ((merge first value).bind _)
    cases merge first value with
    | error e => rfl
    | ok next => exact ih next

theorem foldKnowledge_some (flat : List K) :
    foldKnowledge merge (flat.map some) = foldFlat merge flat := by
  cases flat with
  | nil => rfl
  | cons first rest => exact foldlM_some first rest

/-- Missing values do not count. -/
theorem foldlM_reduceOption (values : List (Option K)) (sofar : Option K) :
    values.foldlM (foldStep merge) sofar
      = (values.reduceOption.map some).foldlM (foldStep merge) sofar := by
  induction values generalizing sofar with
  | nil => rfl
  | cons value rest ih =>
    cases value with
    | none =>
      rw [List.reduceOption_cons_of_none, List.foldlM_cons]
      cases sofar with
      | none => exact ih none
      | some a => exact ih (some a)
    | some v =>
      rw [List.reduceOption_cons_of_some, List.map_cons, List.foldlM_cons, List.foldlM_cons]
      congr 1
      funext next
      exact ih next

/-- What is folded to one value may be folded by itself first. -/
theorem bind_foldlM (hassoc : AssociativeMerge merge) (rest : List K) (sofar : Option K)
    (first : K) :
    (foldStep merge sofar (some first)).bind ((rest.map some).foldlM (foldStep merge))
      = ((rest.map some).foldlM (foldStep merge) (some first)).bind (foldStep merge sofar) := by
  induction rest generalizing first with
  | nil =>
    show (foldStep merge sofar (some first)).bind Except.ok = foldStep merge sofar (some first)
    cases foldStep merge sofar (some first) <;> rfl
  | cons value rest ih =>
    have hregroup : (foldStep merge sofar (some first)).bind (foldStep merge · (some value))
        = (merge first value).bind fun both => foldStep merge sofar (some both) := by
      cases sofar with
      | none =>
        show (merge first value).map some = (merge first value).bind fun both => .ok (some both)
        cases merge first value <;> rfl
      | some a =>
        have hmerged := congrArg (Except.map some) (hassoc a first value)
        rw [map_bind, map_bind] at hmerged
        refine Eq.trans ?_ hmerged
        show ((merge a first).map some).bind _ = _
        cases merge a first <;> rfl
    calc (foldStep merge sofar (some first)).bind
          (((value :: rest).map some).foldlM (foldStep merge))
        = ((foldStep merge sofar (some first)).bind (foldStep merge · (some value))).bind
            ((rest.map some).foldlM (foldStep merge)) := by
          cases foldStep merge sofar (some first) <;> rfl
      _ = (merge first value).bind fun both => (foldStep merge sofar (some both)).bind
            ((rest.map some).foldlM (foldStep merge)) := by
          rw [hregroup]
          cases merge first value <;> rfl
      _ = (merge first value).bind fun both =>
            ((rest.map some).foldlM (foldStep merge) (some both)).bind (foldStep merge sofar) := by
          congr 1
          funext both
          exact ih both
      _ = (((value :: rest).map some).foldlM (foldStep merge) (some first)).bind
            (foldStep merge sofar) := by
          show _ = (((merge first value).map some).bind _).bind _
          cases merge first value <;> rfl

/-! ## Orders of folding -/

/-- Where two steps may be exchanged, steps may be taken in any order. -/
theorem foldlM_perm {α β : Type} {step : β → α → Except ε β}
    (hswap : ∀ s a b, (step s a).bind (step · b) = (step s b).bind (step · a)) {xs ys : List α}
    (hperm : xs.Perm ys) (s : β) : xs.foldlM step s = ys.foldlM step s := by
  induction hperm generalizing s with
  | nil => rfl
  | cons x _ ih =>
    rw [List.foldlM_cons, List.foldlM_cons]
    congr 1
    funext next
    exact ih next
  | swap x y xs =>
    simp only [List.foldlM_cons]
    show (step s y).bind (fun t => (step t x).bind (xs.foldlM step))
      = (step s x).bind (fun t => (step t y).bind (xs.foldlM step))
    have hboth := congrArg (Except.bind · (xs.foldlM step)) (hswap s y x)
    cases hy : step s y <;> cases hx : step s x <;> simpa [hy, hx, Except.bind] using hboth
  | trans _ _ ih ih' => exact (ih s).trans (ih' s)

/-- With a merge that is associative and commutative, values may be folded in any order. -/
theorem foldFlat_perm (hassoc : AssociativeMerge merge) (hcomm : CommutativeMerge merge)
    {xs ys : List K} (hperm : xs.Perm ys) : foldFlat merge xs = foldFlat merge ys := by
  have hswap : ∀ (sofar : Option K) (a b : K),
      (foldStep merge sofar (some a)).bind (foldStep merge · (some b))
        = (foldStep merge sofar (some b)).bind (foldStep merge · (some a)) := by
    intro sofar a b
    cases sofar with
    | none => exact congrArg (Except.map some) (hcomm a b)
    | some c =>
      have hmerged : (merge c a).bind (merge · b) = (merge c b).bind (merge · a) := by
        rw [hassoc c a b, hassoc c b a, hcomm a b]
      have hsome := congrArg (Except.map some) hmerged
      rw [map_bind, map_bind] at hsome
      show ((merge c a).map some).bind _ = ((merge c b).map some).bind _
      cases ha : merge c a <;> cases hb : merge c b <;> rw [ha, hb] at hsome <;> exact hsome
  rw [← foldKnowledge_some, ← foldKnowledge_some]
  unfold foldKnowledge
  rw [List.foldlM_map, List.foldlM_map]
  exact foldlM_perm hswap hperm none

/-! ## Values that stand for lists -/

/-- The values, missing ones among them, are folded like the list whatever comes before them, and
    all of them are missing just when the list is empty. -/
structure Condenses (merge : K → K → Except ε K) (values : List (Option K)) (flat : List K) :
    Prop where
  fold : ∀ sofar, values.foldlM (foldStep merge) sofar
    = (flat.map some).foldlM (foldStep merge) sofar
  missing : (∀ value ∈ values, value = none) ↔ flat = []

namespace Condenses

theorem nil : Condenses merge [] [] :=
  ⟨fun _ => rfl, by simp⟩

/-- A missing value stands for nothing. -/
theorem cons_none {values : List (Option K)} {flat : List K} :
    Condenses merge (none :: values) flat ↔ Condenses merge values flat := by
  have hskip : ∀ sofar, (none :: values).foldlM (foldStep merge) sofar
      = values.foldlM (foldStep merge) sofar := by
    intro sofar
    cases sofar <;> rfl
  constructor
  · rintro ⟨hfold, hmissing⟩
    exact ⟨fun sofar => (hskip sofar).symm.trans (hfold sofar), by simpa using hmissing⟩
  · rintro ⟨hfold, hmissing⟩
    exact ⟨fun sofar => (hskip sofar).trans (hfold sofar), by simpa using hmissing⟩

theorem append {values others : List (Option K)} {flat rest : List K}
    (h : Condenses merge values flat) (h' : Condenses merge others rest) :
    Condenses merge (values ++ others) (flat ++ rest) := by
  constructor
  · intro sofar
    rw [List.map_append, List.foldlM_append, List.foldlM_append, h.fold sofar]
    congr 1
    funext next
    exact h'.fold next
  · rw [List.forall_mem_append, h.missing, h'.missing, List.append_eq_nil_iff]

/-- Where merging is associative, the fold of a list stands for it. -/
theorem of_fold (hassoc : AssociativeMerge merge) {flat : List K} {value : Option K}
    (h : foldFlat merge flat = .ok value) : Condenses merge [value] flat := by
  cases flat with
  | nil =>
    obtain rfl : none = value := Except.ok.inj h
    exact cons_none.2 nil
  | cons first rest =>
    have hfold : (rest.map some).foldlM (foldStep merge) (some first) = .ok value := by
      rw [foldlM_some]
      exact h
    obtain ⟨whole, -, rfl⟩ := map_eq_ok.1 h
    constructor
    · intro sofar
      have hwhole := bind_foldlM hassoc rest sofar first
      rw [hfold] at hwhole
      rw [List.map_cons, List.foldlM_cons]
      refine Eq.trans ?_ hwhole.symm
      show (foldStep merge sofar (some whole)).bind Except.ok = foldStep merge sofar (some whole)
      cases foldStep merge sofar (some whole) <;> rfl
    · simp

end Condenses

/-! ## What inspectors find -/

/-- What a review's inspectors find in a part, in the order of registration. -/
def Review.outputs (review : Review ε K) (part : Part) : Except ε (List K) :=
  Except.map List.reduceOption
    ((review.inspectors.filter fun inspector => inspector.kind = part.kind).mapM
      fun inspector => inspector.inspect part)

/-- What a review's inspectors find in some parts, one part after the other. -/
def Review.allOutputs (review : Review ε K) (parts : List Part) : Except ε (List K) :=
  (parts.mapM review.outputs).map List.flatten

theorem values_of_extractFrom {name : String} {part : Part}
    {inspectors : List (Nat × Inspector ε K)} {sofar value : Option K}
    (h : (extractFrom name merge part sofar inspectors).outcome = .ok value) :
    ∃ values, (inspectors.map (·.2)).mapM (fun inspector => inspector.inspect part) = .ok values ∧
      values.foldlM (foldStep merge) sofar = .ok value := by
  induction inspectors generalizing sofar with
  | nil => exact ⟨[], rfl, h⟩
  | cons entry rest ih =>
    obtain ⟨place, inspector⟩ := entry
    unfold extractFrom at h
    simp only [Journaled.outcome_bind, Journaled.outcome_note, Journaled.outcome_ofExcept] at h
    obtain ⟨_, -, h⟩ := bind_eq_ok.1 h
    obtain ⟨first, hfirst, h⟩ := bind_eq_ok.1 h
    obtain ⟨next, hnext, h⟩ := bind_eq_ok.1 h
    obtain ⟨values, hvalues, hfold⟩ := ih h
    refine ⟨first :: values, ?_, ?_⟩
    · rw [List.map_cons, List.mapM_cons, hfirst, hvalues]
      rfl
    · rw [List.foldlM_cons, hnext]
      exact hfold

variable {review : Review ε K}

/-- The knowledge of a part is the fold of what its inspectors find. -/
theorem outputs_of_extract {part : Part} {value : Option K}
    (h : (review.extract part).outcome = .ok value) :
    ∃ flat, review.outputs part = .ok flat ∧ foldFlat review.merge flat = .ok value := by
  unfold Review.extract at h
  obtain ⟨values, hvalues, hfold⟩ := values_of_extractFrom h
  have hinspectors : (review.inspectorsOf part.kind).map (·.2)
      = review.inspectors.filter fun inspector => inspector.kind = part.kind := by
    unfold Review.inspectorsOf
    rw [List.map_map]
    exact List.zipIdx_map_fst _ _
  rw [hinspectors] at hvalues
  refine ⟨values.reduceOption, ?_, ?_⟩
  · unfold Review.outputs
    rw [hvalues]
    rfl
  · rw [← foldKnowledge_some]
    unfold foldKnowledge
    rw [← foldlM_reduceOption, hfold]

/-- The values stand for what the inspectors find in the parts. -/
def Drawn (review : Review ε K) (parts : List Part) (values : List (Option K)) : Prop :=
  ∃ flat, review.allOutputs parts = .ok flat ∧ Condenses review.merge values flat

namespace Drawn

theorem nil : Drawn review [] [] :=
  ⟨[], rfl, Condenses.nil⟩

theorem append {parts others : List Part} {values further : List (Option K)}
    (h : Drawn review parts values) (h' : Drawn review others further) :
    Drawn review (parts ++ others) (values ++ further) := by
  obtain ⟨flat, hflat, hcondenses⟩ := h
  obtain ⟨rest, hrest, hcondenses'⟩ := h'
  unfold Review.allOutputs at hflat hrest
  obtain ⟨lists, hlists, rfl⟩ := map_eq_ok.1 hflat
  obtain ⟨lists', hlists', rfl⟩ := map_eq_ok.1 hrest
  refine ⟨_, ?_, hcondenses.append hcondenses'⟩
  unfold Review.allOutputs
  rw [List.mapM_append, hlists, hlists', ← List.flatten_append]
  rfl

theorem single (hassoc : AssociativeMerge review.merge) {part : Part} {value : Option K}
    (h : (review.extract part).outcome = .ok value) : Drawn review [part] [value] := by
  obtain ⟨flat, hflat, hfold⟩ := outputs_of_extract h
  refine ⟨flat, ?_, Condenses.of_fold hassoc hfold⟩
  unfold Review.allOutputs
  rw [List.mapM_cons, hflat]
  show Except.ok (flat ++ []) = _
  rw [List.append_nil]

theorem manifest (hassoc : AssociativeMerge review.merge) {manifest : Option Manifest}
    {value : Option K} (h : (manifestKnowledge review manifest).outcome = .ok value) :
    Drawn review (manifest.toList.map .manifest) [value] := by
  cases manifest with
  | none =>
    obtain rfl : none = value := Except.ok.inj h
    exact ⟨[], rfl, Condenses.cons_none.2 Condenses.nil⟩
  | some m => exact single hassoc h

/-- Parts without knowledge leave no entry, and that makes no difference. -/
theorem inspectAll (hassoc : AssociativeMerge review.merge) {parts : List (String × Part)}
    {known : Assoc K} (h : (inspectAll review parts).outcome = .ok known) :
    Drawn review (parts.map (·.2)) (known.map fun entry => some entry.2) := by
  induction parts generalizing known with
  | nil =>
    obtain rfl : [] = known := Except.ok.inj h
    exact nil
  | cons entry rest ih =>
    obtain ⟨path, part⟩ := entry
    unfold ProjectReview.inspectAll at h
    simp only [Journaled.outcome_bind, Journaled.outcome_pure] at h
    obtain ⟨knowledge, hknowledge, h⟩ := bind_eq_ok.1 h
    obtain ⟨others, hothers, h⟩ := bind_eq_ok.1 h
    rw [← Except.ok.inj h]
    obtain ⟨flat, hflat, hcondenses⟩ := (single hassoc hknowledge).append (ih hothers)
    refine ⟨flat, hflat, ?_⟩
    cases knowledge with
    | none => exact Condenses.cons_none.1 hcondenses
    | some k => exact hcondenses

end Drawn

/-! ## The first look at a project -/

/-- Entries that stand in ascending order stay as they are. -/
theorem sortedEntries_eq_self {α : Type} {map : Assoc α}
    (h : map.Pairwise fun a b => a.1 < b.1) : Project.sortedEntries map = map := by
  have hnodup : map.keys.Nodup := List.pairwise_map.2 (h.imp fun hlt => ne_of_lt hlt)
  exact eq_of_get?_eq (pairwise_lt_sortedEntries hnodup) h (get?_sortedEntries hnodup)

theorem keys_inspectAll_sublist {parts : Assoc Part} {known : Assoc K}
    (h : (inspectAll review parts).outcome = .ok known) : known.keys.Sublist parts.keys := by
  induction parts generalizing known with
  | nil =>
    obtain rfl : [] = known := Except.ok.inj h
    exact List.Sublist.refl _
  | cons entry rest ih =>
    obtain ⟨path, part⟩ := entry
    unfold inspectAll at h
    simp only [Journaled.outcome_bind, Journaled.outcome_pure] at h
    obtain ⟨knowledge, -, h⟩ := bind_eq_ok.1 h
    obtain ⟨others, hothers, h⟩ := bind_eq_ok.1 h
    rw [← Except.ok.inj h]
    cases knowledge with
    | none => exact (ih hothers).cons path
    | some k => exact (ih hothers).cons_cons path

/-- The first look at one kind of file leaves what is found in the selected ones. -/
theorem drawn_updateFiles (hassoc : AssociativeMerge review.merge) {φ : Type} {pathOf : φ → String}
    (toPart : φ → Part) {pooled : Bool} {changed : List φ} {removed : List String}
    {update : FileUpdate K}
    (h : (updateFiles review pooled [] (changed.map fun a => (pathOf a, toPart a))
      removed).outcome = .ok update) :
    Drawn review ((selectedFiles pathOf changed removed).map toPart)
      ((Project.sortedEntries update.entries).map fun entry => some entry.2) := by
  have hentries : Except.map FileUpdate.entries (.ok update) = _ :=
    h ▸ outcome_updateFiles pooled [] (changed.map fun a => (pathOf a, toPart a)) removed
  obtain ⟨known, hknown, hupdate⟩ := map_eq_ok.1 hentries.symm
  have hsame : known = update.entries := hupdate
  rw [← hsame]
  have hascending : known.Pairwise fun a b => a.1 < b.1 := by
    have hparts := List.pairwise_map.2 (pairwise_lt_partsToInspect
      (changed.map fun a => (pathOf a, toPart a)) removed)
    exact List.pairwise_map.1 (hparts.sublist (keys_inspectAll_sublist hknown))
  rw [sortedEntries_eq_self hascending]
  have hdrawn := Drawn.inspectAll hassoc hknown
  rwa [partsToInspect_eq, List.map_map] at hdrawn

namespace Cache

theorem isEmpty_iff (cache : Cache K) :
    cache.isEmpty = true ↔ ∀ value ∈ cache.values, value = none := by
  have hfiles : ∀ files : Assoc K, files.isEmpty = true ↔
      ∀ value ∈ (Project.sortedEntries files).map (fun entry => some entry.2), value = none := by
    intro files
    rw [List.isEmpty_iff]
    constructor
    · rintro rfl
      simp [Project.sortedEntries, sortBy]
    · intro hnone
      refine List.eq_nil_iff_forall_not_mem.2 fun entry hentry => ?_
      have hmem := List.mem_map_of_mem (f := fun entry => some entry.2)
        ((perm_sortedEntries files).mem_iff.2 hentry)
      exact absurd (hnone _ hmem) (by simp)
  unfold isEmpty values
  rw [List.cons_append, List.cons_append, List.forall_mem_cons, List.forall_mem_cons,
    List.forall_mem_append, ← hfiles, ← hfiles]
  simp only [Bool.and_eq_true, Option.isNone_iff_eq_none, and_assoc]

/-- The first look at a project leaves what is found in the parts of the settled delta. -/
theorem drawn_update (hassoc : AssociativeMerge review.merge) {pooled : Bool} {delta : Delta}
    {cache : Cache K} (h : (Cache.empty.update review pooled delta).outcome = .ok cache) :
    Drawn review delta.settled.parts cache.values := by
  unfold update at h
  simp only [Journaled.outcome_bind, Journaled.outcome_pure, Journaled.outcome_note] at h
  obtain ⟨manifest, hmanifest, h⟩ := bind_eq_ok.1 h
  obtain ⟨dependencies, hdependencies, h⟩ := bind_eq_ok.1 h
  obtain ⟨modules, hmodules, h⟩ := bind_eq_ok.1 h
  obtain ⟨extraFiles, hextraFiles, h⟩ := bind_eq_ok.1 h
  rw [← Except.ok.inj h]
  have hmanifest := Drawn.manifest hassoc hmanifest
  have hdependencies := Drawn.single hassoc hdependencies
  have hmodules := drawn_updateFiles hassoc Part.module hmodules
  have hextraFiles := drawn_updateFiles hassoc Part.extraFile hextraFiles
  exact ((hmanifest.append hdependencies).append hmodules).append hextraFiles

/-- **The knowledge of a project is one fold.** If merging is associative, the knowledge that the
    first look at a project leaves is, fold of folds that it is, the plain fold of all that the
    inspectors find: in the manifest, in the dependencies, in the modules and in the extra files,
    these in ascending order of paths, and in each part in the order of registration. There is none
    just when nothing is found, and that is just when the cache is empty. If merging is commutative
    too, what is found may be folded in any order. -/
theorem aggregate_folds_outputs (review : Review ε K) (hassoc : AssociativeMerge review.merge)
    (pooled : Bool) (delta : Delta) {cache : Cache K}
    (h : (Cache.empty.update review pooled delta).outcome = .ok cache) :
    delta.Settles delta.settled ∧
    ∃ flat, review.allOutputs delta.settled.parts = .ok flat ∧
      cache.aggregate review = foldFlat review.merge flat ∧
      (cache.aggregate review = .ok none ↔ flat = []) ∧
      (flat = [] ↔ cache.isEmpty = true) ∧
      (CommutativeMerge review.merge → ∀ shuffled, shuffled.Perm flat →
        cache.aggregate review = foldFlat review.merge shuffled) := by
  obtain ⟨flat, hflat, hcondenses⟩ := drawn_update hassoc h
  have hfold : cache.aggregate review = foldFlat review.merge flat := by
    rw [← foldKnowledge_some]
    exact hcondenses.fold none
  refine ⟨delta.settles_settled, flat, hflat, hfold, ?_, ?_, ?_⟩
  · rw [hfold]
    constructor
    · intro hnone
      cases flat with
      | nil => rfl
      | cons first rest =>
        obtain ⟨whole, -, hwhole⟩ := map_eq_ok.1 hnone
        exact absurd hwhole (by simp)
    · rintro rfl
      rfl
  · rw [isEmpty_iff, hcondenses.missing]
  · intro hcomm shuffled hperm
    rw [hfold]
    exact foldFlat_perm hassoc hcomm hperm.symm

/-- A review that adds up the lengths of texts, passes over empty ones, and counts ten for each
    module that does not keep its name short. -/
def addingReview : Review Unit Nat where
  name := "adding"
  inspectors :=
    [.module fun m => .ok (if m.source = "" then none else some m.source.length),
      .dependencies fun _ => .ok none,
      .module fun m => .ok (if m.path.length < 5 then none else some 10),
      .extraFile fun f => .ok (some f.content.length)]
  merge first second := .ok (first + second)
  report _ := .ok []

/-- A module without anything to find, one with two things, a note, and a module that is removed. -/
def unevenDelta : Delta :=
  { modules := [⟨"long.py", "xx", none⟩, ⟨"a.py", "", none⟩, ⟨"gone.py", "xxxx", none⟩]
    extraFiles := [⟨"n.md", "xxx"⟩]
    removedModules := ["gone.py"] }

/-- What is found is added up from three numbers, in whatever order. -/
theorem aggregate_folds_outputs_uneven :
    AssociativeMerge addingReview.merge ∧ CommutativeMerge addingReview.merge ∧
    ∃ cache, (Cache.empty.update addingReview false unevenDelta).outcome = .ok cache ∧
      addingReview.allOutputs unevenDelta.settled.parts = .ok [2, 10, 3] ∧
      cache.aggregate addingReview = foldFlat addingReview.merge [2, 10, 3] ∧
      cache.aggregate addingReview = foldFlat addingReview.merge [3, 10, 2] ∧
      cache.isEmpty = false := by
  have hassoc : AssociativeMerge addingReview.merge :=
    fun a b c => congrArg Except.ok (Nat.add_assoc a b c)
  have hcomm : CommutativeMerge addingReview.merge :=
    fun a b => congrArg Except.ok (Nat.add_comm a b)
  have hrun : ((Cache.empty.update addingReview false unevenDelta).outcome.map fun _ =>
      ()).toOption = some () := by decide +kernel
  have houtputs : (addingReview.allOutputs unevenDelta.settled.parts).toOption
      = some [2, 10, 3] := by decide +kernel
  obtain ⟨cache, hcache, -⟩ := map_eq_ok.1 (toOption_eq_some.1 hrun)
  obtain ⟨-, flat, hflat, hfold, -, hempty, hperm⟩ :=
    aggregate_folds_outputs addingReview hassoc false unevenDelta hcache
  obtain rfl : flat = [2, 10, 3] :=
    Except.ok.inj (hflat.symm.trans (toOption_eq_some.1 houtputs))
  refine ⟨hassoc, hcomm, cache, hcache, hflat, hfold, hperm hcomm _ (by decide), ?_⟩
  rw [Bool.eq_false_iff]
  intro htrue
  exact absurd (hempty.2 htrue) (by simp)

end Cache

end ProjectReview
