import ProjectReview.Engine.Run
import ProjectReview.Proofs.Outcomes
import ProjectReview.Proofs.Projects

set_option autoImplicit false

/-! # What a cache knows

A review's knowledge of some files is up to date (`Knows`) when at the path of every live file it
holds what the review draws from that file now, and nothing anywhere else. Drawing knowledge anew
brings it up to date (`inspectAll_knows`), and so does the incremental step, which draws only from
changed files and keeps the rest: `updateFiles_agree` compares it with a first run over the files
that result and shows that the two end alike, the first failure included.

The failures agree because a file that is not drawn from again has been drawn from before, without
failure; leaving such files out of a sequence of inspections does not change how the sequence ends
(`inspectAll_filter`). -/

namespace ProjectReview

variable {ε K : Type} {review : Review ε K}

/-! ## Drawing knowledge -/

/-- Several workers come to the same outcome as one. -/
theorem outcome_inspectPooled (parts : List (String × Part)) :
    (inspectPooled review parts).outcome = (inspectAll review parts).outcome := by
  induction parts with
  | nil => rfl
  | cons entry rest ih =>
    obtain ⟨path, part⟩ := entry
    simp only [inspectPooled, inspectAll, Journaled.outcome_bind, Journaled.outcome_pure, ih]
    rfl

/-- However many workers there are, the parts are drawn from as if one by one. -/
theorem outcome_inspectParts (pooled : Bool) (parts : List (String × Part)) :
    (inspectParts review pooled parts).outcome = (inspectAll review parts).outcome := by
  rw [inspectParts]
  split
  · exact outcome_inspectPooled parts
  · rfl

/-- At the path of every live file stands what the review draws from it, and nothing elsewhere. -/
structure Knows (review : Review ε K) (live : Assoc Part) (known : Assoc K) : Prop where
  nodup : known.keys.Nodup
  drawn : ∀ path part, live.get? path = some part →
    (review.extract part).outcome = .ok (known.get? path)
  gone : ∀ path, live.get? path = none → known.get? path = none

namespace Knows

theorem empty : Knows review [] [] where
  nodup := List.nodup_nil
  drawn := by simp [Assoc.get?]
  gone := by simp [Assoc.get?]

theorem congr {live live' : Assoc Part} {known : Assoc K} (h : Knows review live known)
    (hlive : ∀ path, live.get? path = live'.get? path) : Knows review live' known where
  nodup := h.nodup
  drawn path part hpart := h.drawn path part (by rw [hlive, hpart])
  gone path hpath := h.gone path (by rw [hlive, hpath])

/-- There is only one way to be up to date. -/
theorem get?_eq {live : Assoc Part} {a b : Assoc K} (ha : Knows review live a)
    (hb : Knows review live b) (path : String) : a.get? path = b.get? path := by
  cases hpath : live.get? path with
  | none => rw [ha.gone path hpath, hb.gone path hpath]
  | some part => exact Except.ok.inj ((ha.drawn path part hpath).symm.trans (hb.drawn path part hpath))

end Knows

theorem get?_addKnown {path : String} {others : Assoc K} (hpath : others.get? path = none)
    (knowledge : Option K) (other : String) :
    (addKnown path knowledge others).get? other
      = if path = other then knowledge else others.get? other := by
  cases knowledge with
  | some k => simp [addKnown, Assoc.get?]
  | none =>
    by_cases ho : path = other
    · rw [if_pos ho, ← ho]
      exact hpath
    · rw [if_neg ho]
      rfl

/-- One more file brings its knowledge in. -/
theorem Knows.cons {rest : Assoc Part} {others : Assoc K} (h : Knows review rest others)
    {path : String} {part : Part} {knowledge : Option K} (hpath : path ∉ rest.keys)
    (hdrawn : (review.extract part).outcome = .ok knowledge) :
    Knows review ((path, part) :: rest) (addKnown path knowledge others) := by
  have hnone : others.get? path = none := h.gone path ((Assoc.get?_eq_none_iff rest path).2 hpath)
  refine ⟨?_, ?_, ?_⟩
  · cases knowledge with
    | none => exact h.nodup
    | some k => exact List.nodup_cons.2 ⟨(Assoc.get?_eq_none_iff others path).1 hnone, h.nodup⟩
  · intro other otherPart hother
    rw [Assoc.get?] at hother
    rw [get?_addKnown hnone]
    split at hother
    · next ho => rw [if_pos ho, ← Option.some.inj hother, hdrawn]
    · next ho => rw [if_neg ho, h.drawn other otherPart hother]
  · intro other hother
    rw [Assoc.get?] at hother
    rw [get?_addKnown hnone]
    split at hother
    · exact absurd hother (by simp)
    · next ho => rw [if_neg ho, h.gone other hother]

/-- Drawing from all files, one after the other, gives knowledge that is up to date. -/
theorem inspectAll_knows {parts : Assoc Part} {known : Assoc K} (hnodup : parts.keys.Nodup)
    (h : (inspectAll review parts).outcome = .ok known) : Knows review parts known := by
  induction parts generalizing known with
  | nil =>
    obtain rfl : [] = known := by simpa [inspectAll] using h
    exact Knows.empty
  | cons entry rest ih =>
    obtain ⟨path, part⟩ := entry
    simp only [Assoc.keys, List.map_cons, List.nodup_cons] at hnodup
    simp only [inspectAll, Journaled.outcome_bind, Journaled.outcome_pure] at h
    obtain ⟨knowledge, hdrawn, h⟩ := bind_eq_ok.1 h
    obtain ⟨others, hothers, h⟩ := bind_eq_ok.1 h
    rw [← Except.ok.inj h]
    exact (ih hnodup.2 hothers).cons hnodup.1 hdrawn

/-- Files that are drawn from without failure can be left out, and the others end as before. -/
theorem inspectAll_filter (keep : String → Bool) (parts : List (String × Part))
    (h : ∀ entry ∈ parts, keep entry.1 = false → ∃ k, (review.extract entry.2).outcome = .ok k) :
    SameOutcome (fun _ _ => True)
      (inspectAll review (parts.filter fun entry => keep entry.1)).outcome
      (inspectAll review parts).outcome := by
  induction parts with
  | nil => exact .ok trivial
  | cons entry rest ih =>
    obtain ⟨path, part⟩ := entry
    have hrest := ih fun entry hentry => h entry (List.mem_cons_of_mem _ hentry)
    by_cases hkeep : keep path = true
    · rw [List.filter_cons, if_pos hkeep]
      simp only [inspectAll, Journaled.outcome_bind, Journaled.outcome_pure]
      exact (SameOutcome.refl _).bind fun a b _ => hrest.bind fun _ _ _ => .ok trivial
    · rw [List.filter_cons, if_neg hkeep]
      obtain ⟨k, hk⟩ := h (path, part) (List.mem_cons_self ..) (by simpa using hkeep)
      simp only [inspectAll, Journaled.outcome_bind, Journaled.outcome_pure, hk, Except.bind]
      exact hrest.bind_right fun _ _ _ => .ok trivial

/-! ## The incremental step for one kind of file -/

/-- Whether there are workers or not, an update puts what the parts to inspect give behind the
    entries it keeps. -/
theorem outcome_updateFiles (pooled : Bool) (previous : Assoc K) (changed : List (String × Part))
    (removed : List String) :
    (updateFiles review pooled previous changed removed).outcome.map FileUpdate.entries
      = (inspectAll review (partsToInspect changed removed)).outcome.map
          (keptEntries previous removed (partsToInspect changed removed) ++ ·) := by
  simp only [updateFiles, Journaled.outcome_bind, Journaled.outcome_pure, outcome_inspectParts]
  cases (inspectAll review (partsToInspect changed removed)).outcome <;> rfl

/-- The parts to inspect are the last versions of the changed paths that are not removed. -/
theorem get?_partsToInspect (changed : List (String × Part)) (removed : List String)
    (path : String) :
    Assoc.get? (partsToInspect changed removed) path
      = if path ∈ removed then none else (Assoc.ofEntries changed).get? path := by
  have hnodup := Assoc.nodup_keys_ofEntries changed
  rw [partsToInspect, get?_sortedEntries (Assoc.nodup_keys_filter hnodup _),
    Assoc.get?_filter (fun path => !removed.contains path)]
  by_cases hpath : path ∈ removed
  · simp [hpath]
  · simp [hpath]

theorem pairwise_lt_partsToInspect (changed : List (String × Part)) (removed : List String) :
    (partsToInspect changed removed).Pairwise fun a b => a.1 < b.1 :=
  pairwise_lt_sortedEntries (Assoc.nodup_keys_filter (Assoc.nodup_keys_ofEntries changed) _)

theorem get?_keptEntries (previous : Assoc K) (removed : List String) (parts : Assoc Part)
    (path : String) :
    (keptEntries previous removed parts).get? path
      = if !removed.contains path && !parts.has path then previous.get? path else none :=
  Assoc.get?_filter (fun path => !removed.contains path && !parts.has path) previous path

/-- The latter are the files that result when changed ones are taken in, of several versions the
    last, and removed ones are dropped. -/
def LeadsTo (changed : List (String × Part)) (removed : List String) (live next : Assoc Part) :
    Prop :=
  ∀ path, next.get? path
    = if path ∈ removed then none else ((Assoc.ofEntries changed).get? path).or (live.get? path)

section Update

variable {live next : Assoc Part} {known computed : Assoc K} {changed : List (String × Part)}
  {removed : List String}

/-- After an update stands at each path what was drawn there, or else what is kept. -/
theorem get?_kept_append (hcomputed : Knows review (partsToInspect changed removed) computed)
    (path : String) :
    Assoc.get? (keptEntries known removed (partsToInspect changed removed) ++ computed) path
      = if (Assoc.get? (partsToInspect changed removed) path).isSome then computed.get? path
        else if path ∈ removed then none else known.get? path := by
  rw [Assoc.get?_append, get?_keptEntries, Assoc.has]
  cases hparts : Assoc.get? (partsToInspect changed removed) path with
  | some part => simp
  | none => simp [hcomputed.gone path hparts]

/-- Kept and new knowledge together are up to date for the files that result. -/
theorem Knows.update (h : Knows review live known) (hnext : LeadsTo changed removed live next)
    (hcomputed : Knows review (partsToInspect changed removed) computed) :
    Knows review next
      (keptEntries known removed (partsToInspect changed removed) ++ computed) := by
  have hparts : ∀ path, next.get? path = (Assoc.get? (partsToInspect changed removed) path).or
      (if path ∈ removed then none else live.get? path) := by
    intro path
    rw [hnext path, get?_partsToInspect]
    by_cases hpath : path ∈ removed
    · simp [hpath]
    · simp [hpath]
  refine ⟨?_, fun path part hpart => ?_, fun path hpath => ?_⟩
  · have hkept : (keptEntries known removed (partsToInspect changed removed)).keys.Nodup :=
      Assoc.nodup_keys_filter h.nodup _
    rw [Assoc.keys, List.map_append]
    refine hkept.append hcomputed.nodup fun path hkeptPath hcomputedPath => ?_
    -- A kept path is not inspected, so nothing is computed for it.
    obtain ⟨value, hvalue⟩ := (Assoc.mem_keys_iff _ path).1 hkeptPath
    rw [get?_keptEntries] at hvalue
    have hnone : Assoc.get? (partsToInspect changed removed) path = none := by
      by_contra hsome
      simp [Assoc.has, Option.isSome_iff_ne_none.2 hsome] at hvalue
    exact (Assoc.get?_eq_none_iff computed path).1 (hcomputed.gone path hnone) hcomputedPath
  · rw [get?_kept_append hcomputed]
    rw [hparts] at hpart
    cases hinspected : Assoc.get? (partsToInspect changed removed) path with
    | some inspected =>
      rw [hinspected, Option.some_or] at hpart
      rw [Option.isSome_some, if_pos rfl]
      exact hcomputed.drawn path part (hinspected.trans hpart)
    | none =>
      rw [hinspected, Option.none_or] at hpart
      rw [Option.isSome_none, if_neg (by simp)]
      split at hpart
      · exact absurd hpart (by simp)
      · next hremoved => rw [if_neg hremoved, h.drawn path part hpart]
  · rw [get?_kept_append hcomputed]
    rw [hparts, Option.or_eq_none_iff] at hpath
    rw [hpath.1, Option.isSome_none, if_neg (by simp)]
    split
    · rfl
    · next hremoved => exact h.gone path (by simpa [hremoved] using hpath.2)

/-- A first run looks at every file. -/
theorem partsToInspect_sortedEntries (hnodup : next.keys.Nodup) :
    partsToInspect (Project.sortedEntries next) [] = Project.sortedEntries next := by
  apply eq_of_get?_eq (pairwise_lt_partsToInspect _ _) (pairwise_lt_sortedEntries hnodup)
  intro path
  rw [get?_partsToInspect, if_neg (by simp),
    Assoc.ofEntries_of_nodup _ (nodup_keys_sortedEntries hnodup)]

/-- A later run looks at those of the files that have changed. -/
theorem partsToInspect_eq_filter (hnodup : next.keys.Nodup)
    (hnext : LeadsTo changed removed live next) :
    partsToInspect changed removed = (Project.sortedEntries next).filter fun entry =>
      (Assoc.ofEntries changed).has entry.1 := by
  apply eq_of_get?_eq (pairwise_lt_partsToInspect _ _) ((pairwise_lt_sortedEntries hnodup).filter _)
  intro path
  rw [get?_partsToInspect, Assoc.get?_filter (Assoc.ofEntries changed).has,
    get?_sortedEntries hnodup, hnext path, Assoc.has]
  cases (Assoc.ofEntries changed).get? path with
  | none => simp
  | some part => simp

/-- A file that has not changed was drawn from before, without failure. -/
theorem Knows.extract_ok (h : Knows review live known) (hnodup : next.keys.Nodup)
    (hnext : LeadsTo changed removed live next) {entry : String × Part}
    (hentry : entry ∈ Project.sortedEntries next)
    (hchanged : (Assoc.ofEntries changed).has entry.1 = false) :
    ∃ k, (review.extract entry.2).outcome = .ok k := by
  obtain ⟨path, part⟩ := entry
  have hpart : next.get? path = some part :=
    (Assoc.get?_eq_some_iff hnodup path part).2 ((perm_sortedEntries next).mem_iff.1 hentry)
  have hnone : (Assoc.ofEntries changed).get? path = none := by
    simpa [Assoc.has] using hchanged
  rw [hnext path, hnone, Option.none_or] at hpart
  split at hpart
  · exact absurd hpart (by simp)
  · exact ⟨_, h.drawn path part hpart⟩

/-- **The incremental step ends like a first run.** Files of which knowledge is up to date, changed
    and removed, end like a first look at the files that result, whatever the number of workers; and
    both leave knowledge that is up to date. -/
theorem updateFiles_agree (h : Knows review live known) (hnodup : next.keys.Nodup)
    (hnext : LeadsTo changed removed live next) (pooled pooled' : Bool) :
    SameOutcome
      (fun warm cold => Knows review next warm.entries ∧ Knows review next cold.entries)
      (updateFiles review pooled known changed removed).outcome
      (updateFiles review pooled' [] (Project.sortedEntries next) []).outcome := by
  -- The first run looks at more files, but at those in between it cannot fail.
  have hends : SameOutcome (fun _ _ => True)
      (inspectAll review (partsToInspect changed removed)).outcome
      (inspectAll review (Project.sortedEntries next)).outcome := by
    rw [partsToInspect_eq_filter hnodup hnext]
    exact inspectAll_filter _ _ fun entry hentry hchanged =>
      h.extract_ok hnodup hnext hentry hchanged
  suffices hentries : SameOutcome
      (fun warm cold => Knows review next warm ∧ Knows review next cold)
      ((updateFiles review pooled known changed removed).outcome.map FileUpdate.entries)
      ((updateFiles review pooled' [] (Project.sortedEntries next) []).outcome.map
        FileUpdate.entries) from hentries.of_map
  rw [outcome_updateFiles, outcome_updateFiles, partsToInspect_sortedEntries hnodup]
  refine hends.with_ok.map ?_
  rintro computed all ⟨hcomputed, hall, -⟩
  have hparts : (Assoc.keys (partsToInspect changed removed)).Nodup :=
    List.pairwise_map.2 ((pairwise_lt_partsToInspect changed removed).imp fun hlt => ne_of_lt hlt)
  have hknown := inspectAll_knows hparts hcomputed
  have hallKnown := inspectAll_knows (nodup_keys_sortedEntries hnodup) hall
  exact ⟨h.update hnext hknown, hallKnown.congr (get?_sortedEntries hnodup)⟩

end Update

end ProjectReview
