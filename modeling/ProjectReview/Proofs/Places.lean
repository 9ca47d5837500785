import ProjectReview.Files.Tree

set_option autoImplicit false

/-! # Where paths lead

What the first component of a path does is said once, by `FollowStep`: it goes up, follows a link or
enters what stands there. Everything about whole paths comes from it by induction.

A place is `Plain` when its components lead there by themselves: through directories, with no link
and no double dots on the way. Every path that leads somewhere leads to a plain place
(`plain_of_follow`), and the same place is its path without links (`realPath_of_follow`). A plain
place leads to itself (`Plain.follow_eq`). So a path that leads somewhere can be resolved, and no
loop of links is in its way (`not_loopAt_of_reach`).

A path in two parts leads where the second part leads from the place of the first
(`followLinks_append`), with the links that are left. -/

namespace ProjectReview.Node

variable {root : Node} {place parts last : List String} {name : String}
  {onLink onLink' : List String → List String → Except FileProblem (List String)}

theorem get?_append (node : Node) (above below : List String) :
    node.get? (above ++ below) = (node.get? above).bind fun inner => inner.get? below := by
  induction above generalizing node with
  | nil => rfl
  | cons name rest ih =>
    rw [List.cons_append, get?, get?]
    cases Assoc.get? node.entries name with
    | none => rfl
    | some child => exact ih child

/-- The node of an entry of a directory. -/
theorem get?_entry {entries : List (String × Node)}
    (h : root.get? place = some (.directory entries)) (name : String) :
    root.get? (place ++ [name]) = Assoc.get? entries name := by
  rw [get?_append, h]
  show get? (.directory entries) [name] = _
  rw [get?, Node.entries]
  cases Assoc.get? entries name <;> rfl

/-! ## One component -/

/-- Where the target of a link is read: an absolute one at the root, any other where the link is. -/
def linkStart (place : List String) (target : String) : List String :=
  if (Path.ofText target).absolute then [] else place

/-- What the first component of a path that leads somewhere does. -/
inductive FollowStep (root : Node)
    (onLink : List String → List String → Except FileProblem (List String))
    (place : List String) (name : String) (rest last : List String) : Prop
  | up {entries : List (String × Node)} (inside : root.get? place = some (.directory entries))
      (dots : name = "..") (further : followWith root onLink place.dropLast rest = .ok last)
  | link {entries : List (String × Node)} {target : String}
      (inside : root.get? place = some (.directory entries)) (proper : name ≠ "..")
      (found : Assoc.get? entries name = some (.link target))
      (behind : onLink (linkStart place target) ((Path.ofText target).parts ++ rest) = .ok last)
  | entry {entries : List (String × Node)} {node : Node}
      (inside : root.get? place = some (.directory entries)) (proper : name ≠ "..")
      (found : Assoc.get? entries name = some node) (noLink : ∀ target, node ≠ .link target)
      (further : followWith root onLink (place ++ [name]) rest = .ok last)

theorem followWith_cons_eq_ok {rest : List String} :
    followWith root onLink place (name :: rest) = .ok last ↔
      FollowStep root onLink place name rest last := by
  rw [followWith]
  constructor
  · intro h
    split at h
    · next entries inside =>
      split at h
      · next dots => exact .up inside dots h
      · next proper =>
        split at h
        · exact nomatch h
        · next target found => exact .link inside proper found h
        · next node noLink found => exact .entry inside proper found noLink h
    · exact nomatch h
    · exact nomatch h
  · intro h
    cases h with
    | up inside dots further => simp [inside, dots, further]
    | link inside proper found behind =>
      simp only [inside, proper, found]
      exact behind
    | @entry entries node inside proper found noLink further =>
      cases node with
      | link target => exact absurd rfl (noLink target)
      | file content => simp [inside, proper, found, further]
      | directory inner => simp [inside, proper, found, further]

/-- A path that goes on starts at a directory. -/
theorem FollowStep.isDirectory {rest : List String}
    (h : FollowStep root onLink place name rest last) :
    ∃ entries, root.get? place = some (.directory entries) := by
  cases h with
  | up inside => exact ⟨_, inside⟩
  | link inside => exact ⟨_, inside⟩
  | entry inside => exact ⟨_, inside⟩

/-! ## Plain places -/

/-- Links and double dots do not occur on the way to the place, and it is no link. -/
inductive Plain (root : Node) : List String → Prop
  | root : Plain root []
  | entry {place : List String} {name : String} {entries : List (String × Node)} {node : Node}
      (above : Plain root place) (inside : root.get? place = some (.directory entries))
      (proper : name ≠ "..") (found : Assoc.get? entries name = some node)
      (noLink : ∀ target, node ≠ .link target) : Plain root (place ++ [name])

theorem Plain.dropLast (h : Plain root place) : Plain root place.dropLast := by
  cases h with
  | root => exact .root
  | entry above => rwa [List.dropLast_concat]

theorem Plain.linkStart (h : Plain root place) (target : String) :
    Plain root (linkStart place target) := by
  rw [Node.linkStart]
  split
  · exact .root
  · exact h

/-- Components from the root on lead along a plain place. -/
theorem Plain.followWith_append (h : Plain root place)
    (onLink : List String → List String → Except FileProblem (List String)) (rest : List String)
    (hrest : followWith root onLink place rest = .ok last) :
    followWith root onLink [] (place ++ rest) = .ok last := by
  induction h generalizing rest with
  | root => exact hrest
  | entry _ inside proper found noLink ih =>
    rw [List.append_assoc, List.singleton_append]
    exact ih _ (followWith_cons_eq_ok.2 (.entry inside proper found noLink hrest))

/-- **A plain place leads to itself.** -/
theorem Plain.follow_eq (h : Plain root place) : root.follow place = .ok place := by
  have hfollow := h.followWith_append (followLinks root 39) [] rfl
  rwa [List.append_nil] at hfollow

/-- What is followed from a plain place on leads to one, if that is so behind links. -/
theorem plain_of_followWith
    (hlink : ∀ start rest last, Plain root start → onLink start rest = .ok last → Plain root last)
    (hplace : Plain root place) (h : followWith root onLink place parts = .ok last) :
    Plain root last := by
  induction parts generalizing place with
  | nil =>
    obtain rfl : place = last := Except.ok.inj h
    exact hplace
  | cons name rest ih =>
    cases followWith_cons_eq_ok.1 h with
    | up _ _ further => exact ih hplace.dropLast further
    | link _ _ _ behind => exact hlink _ _ _ (hplace.linkStart _) behind
    | entry inside proper found noLink further =>
      exact ih (.entry hplace inside proper found noLink) further

theorem plain_of_followLinks (links : Nat) (hplace : Plain root place)
    (h : followLinks root links place parts = .ok last) : Plain root last := by
  induction links generalizing place parts last with
  | zero => exact plain_of_followWith (fun _ _ _ _ hnone => by cases hnone) hplace h
  | succ links ih => exact plain_of_followWith (fun _ _ _ => ih) hplace h

/-- **A path that leads somewhere leads to a plain place.** -/
theorem plain_of_follow (h : root.follow parts = .ok place) : Plain root place :=
  plain_of_followLinks 40 .root h

/-! ## Paths without links -/

/-- Where components lead somewhere, they are followed in the same way as far as they exist. -/
theorem realWith_of_followWith {onRealLink : List String → List String → List String}
    (hlink : ∀ start rest last, onLink start rest = .ok last → onRealLink start rest = last)
    (h : followWith root onLink place parts = .ok last) :
    realWith root onRealLink place parts = last := by
  induction parts generalizing place with
  | nil => exact Except.ok.inj h
  | cons name rest ih =>
    rw [realWith]
    cases followWith_cons_eq_ok.1 h with
    | up _ dots further =>
      rw [if_pos dots]
      exact ih further
    | link inside proper found behind =>
      rw [if_neg proper, get?_entry inside, found]
      exact hlink _ _ _ behind
    | @entry entries node inside proper found noLink further =>
      rw [if_neg proper, get?_entry inside, found]
      cases node with
      | link target => exact absurd rfl (noLink target)
      | file content => exact ih further
      | directory inner => exact ih further

theorem realLinks_of_followLinks {links more : Nat} (hmore : links ≤ more)
    (h : followLinks root links place parts = .ok last) :
    realLinks root more place parts = last := by
  induction links generalizing more place parts last with
  | zero =>
    cases more with
    | zero => exact realWith_of_followWith (fun _ _ _ hnone => by cases hnone) h
    | succ more => exact realWith_of_followWith (fun _ _ _ hnone => by cases hnone) h
  | succ links ih =>
    cases more with
    | zero => exact absurd hmore (Nat.not_succ_le_zero links)
    | succ more =>
      exact realWith_of_followWith (fun _ _ _ => ih (Nat.le_of_succ_le_succ hmore)) h

/-- **Where a path leads is the path without links**, for which no fewer links are followed. -/
theorem realPath_of_follow (h : root.follow parts = .ok place) : root.realPath parts = place :=
  realLinks_of_followLinks (by decide) h

theorem reach_eq_ok_iff {node : Node} :
    root.reach parts = .ok node ↔
      ∃ place, root.follow parts = .ok place ∧ root.get? place = some node := by
  rw [reach]
  cases root.follow parts with
  | error problem => simp
  | ok place =>
    cases hnode : root.get? place with
    | none => simp [hnode]
    | some found => simp [hnode]

theorem isDirectoryAt_iff :
    root.isDirectoryAt parts = true ↔
      ∃ place entries, root.follow parts = .ok place ∧
        root.get? place = some (.directory entries) := by
  have hreach : root.isDirectoryAt parts = true ↔
      ∃ entries, root.reach parts = .ok (.directory entries) := by
    rw [isDirectoryAt]
    split
    · next entries h => simp [h]
    · next h => simpa using h
  simp only [hreach, reach_eq_ok_iff]
  exact exists_comm

/-- The links at the end of a path go round in a loop. -/
def LoopAt (root : Node) (parts : List String) : Prop :=
  root.reach (root.realPath parts) = .error .tooManyLinks

theorem resolve_eq_ok_iff :
    root.resolve parts = .ok place ↔ ¬ root.LoopAt parts ∧ root.realPath parts = place := by
  rw [resolve, LoopAt]
  split
  · next hloop => simp [hloop]
  · next hother =>
    have hno : ¬ root.reach (root.realPath parts) = .error .tooManyLinks := hother
    simp [hno]

/-- A path that leads somewhere is no loop. -/
theorem not_loopAt_of_reach {node : Node} (h : root.reach parts = .ok node) :
    ¬ root.LoopAt parts := by
  obtain ⟨place, hfollow, hnode⟩ := reach_eq_ok_iff.1 h
  have hplace : root.reach place = .ok node :=
    reach_eq_ok_iff.2 ⟨place, (plain_of_follow hfollow).follow_eq, hnode⟩
  rw [LoopAt, realPath_of_follow hfollow, hplace]
  simp

/-! ## Paths in two parts -/

theorem followWith_mono
    (hlink : ∀ start rest last, onLink start rest = .ok last → onLink' start rest = .ok last)
    (h : followWith root onLink place parts = .ok last) :
    followWith root onLink' place parts = .ok last := by
  induction parts generalizing place with
  | nil => exact h
  | cons name rest ih =>
    rw [followWith_cons_eq_ok]
    cases followWith_cons_eq_ok.1 h with
    | up inside dots further => exact .up inside dots (ih further)
    | link inside proper found behind => exact .link inside proper found (hlink _ _ _ behind)
    | entry inside proper found noLink further =>
      exact .entry inside proper found noLink (ih further)

/-- With more links to follow, a path leads to the same place. -/
theorem followLinks_mono {links more : Nat} (hmore : links ≤ more)
    (h : followLinks root links place parts = .ok last) :
    followLinks root more place parts = .ok last := by
  induction links generalizing more place parts last with
  | zero =>
    cases more with
    | zero => exact h
    | succ more => exact followWith_mono (fun _ _ _ hnone => by cases hnone) h
  | succ links ih =>
    cases more with
    | zero => exact absurd hmore (Nat.not_succ_le_zero links)
    | succ more => exact followWith_mono (fun _ _ _ => ih (Nat.le_of_succ_le_succ hmore)) h

/-- A path leads to one place at most. -/
theorem followLinks_unique {links more : Nat} {other : List String}
    (h : followLinks root links place parts = .ok last)
    (hother : followLinks root more place parts = .ok other) : last = other := by
  have hall := followLinks_mono (Nat.le_max_left links more) h
  rw [followLinks_mono (Nat.le_max_right links more) hother] at hall
  exact (Except.ok.inj hall).symm

/-- A path in two parts is followed along the first part, to a place from where the second part
    leads on, if that is so behind links. -/
theorem followWith_append {below : List String} {leadsOn : List String → Prop}
    (hhere : ∀ start, followWith root onLink start below = .ok last → leadsOn start)
    (hlink : ∀ start rest, onLink start (rest ++ below) = .ok last →
      ∃ middle, onLink start rest = .ok middle ∧ leadsOn middle)
    (h : followWith root onLink place (parts ++ below) = .ok last) :
    ∃ middle, followWith root onLink place parts = .ok middle ∧ leadsOn middle := by
  induction parts generalizing place with
  | nil => exact ⟨place, rfl, hhere place h⟩
  | cons name rest ih =>
    rw [List.cons_append] at h
    simp only [followWith_cons_eq_ok]
    cases followWith_cons_eq_ok.1 h with
    | up inside dots further =>
      obtain ⟨middle, hmiddle, hbelow⟩ := ih further
      exact ⟨middle, .up inside dots hmiddle, hbelow⟩
    | link inside proper found behind =>
      -- The link's target comes in front of both parts, so it belongs to the first.
      rw [← List.append_assoc] at behind
      obtain ⟨middle, hmiddle, hbelow⟩ := hlink _ _ behind
      exact ⟨middle, .link inside proper found hmiddle, hbelow⟩
    | entry inside proper found noLink further =>
      obtain ⟨middle, hmiddle, hbelow⟩ := ih further
      exact ⟨middle, .entry inside proper found noLink hmiddle, hbelow⟩

/-- **A path in two parts leads where its second part leads from the place of the first.** -/
theorem followLinks_append {links : Nat} {below : List String}
    (h : followLinks root links place (parts ++ below) = .ok last) :
    ∃ middle, followLinks root links place parts = .ok middle ∧
      ∃ left, followLinks root left middle below = .ok last := by
  induction links generalizing place parts last with
  | zero =>
    refine followWith_append ?_ ?_ h
    · exact fun start hstart => ⟨0, hstart⟩
    · exact fun start rest hnone => by cases hnone
  | succ links ih =>
    refine followWith_append ?_ ?_ h
    · exact fun start hstart => ⟨links + 1, hstart⟩
    · exact fun start rest hrest => ih hrest

theorem followWith_comp {middle below : List String}
    (hbelow : followWith root onLink middle below = .ok last)
    (hlink : ∀ start rest, onLink start rest = .ok middle →
      onLink start (rest ++ below) = .ok last)
    (h : followWith root onLink place parts = .ok middle) :
    followWith root onLink place (parts ++ below) = .ok last := by
  induction parts generalizing place with
  | nil =>
    obtain rfl : place = middle := Except.ok.inj h
    exact hbelow
  | cons name rest ih =>
    rw [List.cons_append, followWith_cons_eq_ok]
    cases followWith_cons_eq_ok.1 h with
    | up inside dots further => exact .up inside dots (ih further)
    | link inside proper found behind =>
      refine .link inside proper found ?_
      rw [← List.append_assoc]
      exact hlink _ _ behind
    | entry inside proper found noLink further =>
      exact .entry inside proper found noLink (ih further)

/-- A path leads on along a second part that has no links. -/
theorem followLinks_comp {links : Nat} {middle below : List String}
    (h : followLinks root links place parts = .ok middle)
    (hbelow : followLinks root 0 middle below = .ok last) :
    followLinks root links place (parts ++ below) = .ok last := by
  induction links generalizing place parts with
  | zero => exact followWith_comp hbelow (fun _ _ hnone => by cases hnone) h
  | succ links ih =>
    have hmore := followLinks_mono (Nat.zero_le (links + 1)) hbelow
    exact followWith_comp hmore (fun _ _ => ih) h

/-- The last component of a path is read in the directory that the components before it lead to. -/
theorem follow_concat {above : List String} (h : root.follow (above ++ [name]) = .ok last) :
    ∃ place links, root.follow above = .ok place ∧
      FollowStep root (followLinks root links) place name [] last := by
  obtain ⟨place, habove, links, hname⟩ := followLinks_append h
  have hmore := followLinks_mono (Nat.le_succ links) hname
  exact ⟨place, links, habove, followWith_cons_eq_ok.1 hmore⟩

/-- From a file no component leads on. -/
theorem followLinks_of_file {links : Nat} {content : Bytes}
    (hplace : root.get? place = some (.file content))
    (h : followLinks root links place parts = .ok last) : last = place := by
  have hmore := followLinks_mono (Nat.le_succ links) h
  cases parts with
  | nil => exact (Except.ok.inj hmore).symm
  | cons name rest =>
    obtain ⟨entries, hentries⟩ := (followWith_cons_eq_ok.1 hmore).isDirectory
    rw [hplace] at hentries
    cases hentries

end ProjectReview.Node
