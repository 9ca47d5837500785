import ProjectReview.Proofs.Writing

set_option autoImplicit false

/-! # Where a safe write leaves its content

A safe write that succeeds, with whatever obstacles and wherever its target is, has made the
directories above the target (`makeDirectories_isDirectoryAt`) and then put the content at the place
that the path names, and nothing else (`safeWrite_eq_ok`).

Whether the path leads there afterwards is a question of the directories and links on its way. Since
nothing outside the target changes (`agreeOutside_put`), they are kept if no link is replaced
(`keepsWays_put`), and a path that leads to a directory leads to it in every tree that keeps them
(`KeepsWays.follow`). So the path then leads to the content (`Stored.follow_of_noLink`). A link that
is replaced can be on the way of the path itself; what is left of the path leads nowhere, or to the
content (`Stored.follow_of_existsAt`). -/

namespace ProjectReview.Node

variable {root a b new made left : Node} {place parts last above : List String} {name : String}
  {entries : List (String × Node)} {obstacles : Obstacles} {content : Bytes}

/-! ## Directories and links that are kept -/

/-- The directories and the links of a tree are in another one, too. -/
structure KeepsWays (a b : Node) : Prop where
  directories : ∀ {place : List String} {entries : List (String × Node)},
    a.get? place = some (.directory entries) →
      ∃ entries', b.get? place = some (.directory entries')
  links : ∀ {place : List String} {target : String},
    a.get? place = some (.link target) → b.get? place = some (.link target)

/-- A path to a directory does not lead through files, so all that is on its way is kept. -/
theorem KeepsWays.followWith (h : KeepsWays a b)
    {onLink onLink' : List String → List String → Except FileProblem (List String)}
    (hlink : ∀ start rest, onLink start rest = .ok last → onLink' start rest = .ok last)
    (hlast : a.get? last = some (.directory entries))
    (hfollow : followWith a onLink place parts = .ok last) :
    followWith b onLink' place parts = .ok last := by
  induction parts generalizing place with
  | nil => exact hfollow
  | cons name rest ih =>
    rw [followWith_cons_eq_ok]
    cases followWith_cons_eq_ok.1 hfollow with
    | up inside dots further =>
      obtain ⟨_, inside'⟩ := h.directories inside
      exact .up inside' dots (ih further)
    | link inside proper found behind =>
      obtain ⟨_, inside'⟩ := h.directories inside
      have hkept := h.links ((get?_entry inside name).trans found)
      rw [get?_entry inside'] at hkept
      exact .link inside' proper hkept (hlink _ _ behind)
    | @entry _ node inside proper found noLink further =>
      obtain ⟨_, inside'⟩ := h.directories inside
      -- The entry is a directory, since the path leads on from it or ends at one.
      have hdirectory : ∃ inner, a.get? (place ++ [name]) = some (.directory inner) := by
        cases rest with
        | nil =>
          obtain rfl : place ++ [name] = last := Except.ok.inj further
          exact ⟨_, hlast⟩
        | cons => exact (followWith_cons_eq_ok.1 further).isDirectory
      obtain ⟨_, hdirectory⟩ := hdirectory
      obtain ⟨_, hkept⟩ := h.directories hdirectory
      rw [get?_entry inside'] at hkept
      exact .entry inside' proper hkept (fun _ hother => by cases hother) (ih further)

theorem KeepsWays.followLinks (h : KeepsWays a b) {links : Nat}
    (hlast : a.get? last = some (.directory entries))
    (hfollow : followLinks a links place parts = .ok last) :
    followLinks b links place parts = .ok last := by
  induction links generalizing place parts with
  | zero => exact h.followWith (fun _ _ hnone => by cases hnone) hlast hfollow
  | succ links ih => exact h.followWith (fun _ _ => ih) hlast hfollow

/-- **A path to a directory leads there in every tree that keeps directories and links.** -/
theorem KeepsWays.follow (h : KeepsWays a b) (hlast : a.get? last = some (.directory entries))
    (hfollow : a.follow parts = .ok last) : b.follow parts = .ok last :=
  h.followLinks hlast hfollow

/-! ## What putting an entry into a directory changes -/

/-- Trees agree outside a target: what is not at it or below it is the same in both, or a directory
    in both. -/
def AgreeOutside (target : List String) (a b : Node) : Prop :=
  ∀ other, ¬ target <+: other → b.get? other = a.get? other ∨
    (∃ entries, a.get? other = some (.directory entries)) ∧
      ∃ entries, b.get? other = some (.directory entries)

theorem AgreeOutside.symm {target : List String} (h : AgreeOutside target a b) :
    AgreeOutside target b a := by
  intro other hother
  rcases h other hother with hsame | ⟨ha, hb⟩
  · exact .inl hsame.symm
  · exact .inr ⟨hb, ha⟩

/-- **Putting an entry into a directory changes nothing outside the entry.** -/
theorem agreeOutside_put (h : root.get? place = some (.directory entries)) (name : String)
    (new : Node) : AgreeOutside (place ++ [name]) root (root.put (place ++ [name]) new) := by
  intro other hother
  rw [put_entry h]
  by_cases hbelow : place <+: other
  · -- This is the directory itself, or at or below another entry of it.
    obtain ⟨below, rfl⟩ := hbelow
    cases below with
    | nil =>
      rw [List.append_nil]
      exact .inr ⟨⟨entries, h⟩, _, get?_put h _⟩
    | cons next rest =>
      have hnext : name ≠ next := by
        rintro rfl
        exact hother ⟨rest, by simp⟩
      left
      rw [get?_put_append h, get?_append, h]
      simp only [get?, Node.entries, Option.bind_some, Assoc.get?_set, if_neg hnext]
  · by_cases habove : other <+: place
    · -- What holds the directory is a directory, before and after.
      obtain ⟨below, rfl⟩ := habove
      have hne : below ≠ [] := by
        rintro rfl
        exact hbelow (by simp)
      rw [get?_append] at h
      obtain ⟨inner, hinner, h⟩ := Option.bind_eq_some_iff.1 h
      rw [get?_put_above hinner, hinner]
      right
      simpa using directory_of_get? h hne _
    · exact .inl (get?_put_apart h _ hbelow habove)

theorem get?_put_entry_self (h : root.get? place = some (.directory entries)) (name : String)
    (new : Node) : (root.put (place ++ [name]) new).get? (place ++ [name]) = some new := by
  have hput := get?_put h (.directory (Assoc.set entries name new))
  rw [put_entry h, get?_entry hput, Assoc.get?_set, if_pos rfl]

/-- Directories and links are kept if there are none at the only place that changes. -/
theorem AgreeOutside.keepsWays {target : List String} (h : AgreeOutside target a b)
    (hfile : ∀ below node, a.get? (target ++ below) = some node → ∃ content, node = .file content) :
    KeepsWays a b := by
  have hway {other : List String} {node : Node} (hnode : a.get? other = some node)
      (hno : ∀ content, node ≠ .file content) : ¬ target <+: other := by
    rintro ⟨below, rfl⟩
    obtain ⟨content, rfl⟩ := hfile below node hnode
    exact hno content rfl
  constructor
  · intro other inner hother
    rcases h other (hway hother (by simp)) with hsame | ⟨-, hdirectory⟩
    · exact ⟨inner, hsame.trans hother⟩
    · exact hdirectory
  · intro other link hother
    rcases h other (hway hother (by simp)) with hsame | ⟨⟨_, hdirectory⟩, -⟩
    · exact hsame.trans hother
    · rw [hother] at hdirectory
      cases hdirectory

theorem eq_file_of_get? {below : List String} {node : Node}
    (h : (Node.file content).get? below = some node) : ∃ content, node = .file content := by
  cases below with
  | nil => exact ⟨content, (Option.some.inj h).symm⟩
  | cons next rest => cases h

/-- Nothing is lost where nothing or a file was before. -/
theorem keepsWays_put (h : root.get? place = some (.directory entries)) (new : Node)
    (hfree : ∀ node, Assoc.get? entries name = some node → ∃ content, node = .file content) :
    KeepsWays root (root.put (place ++ [name]) new) := by
  refine (agreeOutside_put h name new).keepsWays fun below node hnode => ?_
  rw [get?_append, get?_entry h] at hnode
  obtain ⟨found, hfound, hbelow⟩ := Option.bind_eq_some_iff.1 hnode
  obtain ⟨content, rfl⟩ := hfree found hfound
  exact eq_file_of_get? hbelow

/-- With a file in the place of something else there are no new directories and links. -/
theorem keepsWays_of_put (h : root.get? place = some (.directory entries)) (name : String)
    (content : Bytes) : KeepsWays (root.put (place ++ [name]) (.file content)) root := by
  refine (agreeOutside_put h name (.file content)).symm.keepsWays fun below node hnode => ?_
  rw [get?_append, get?_put_entry_self h] at hnode
  exact eq_file_of_get? hnode

/-! ## Directories that are made -/

/-- The path leads to what is put where nothing or a file was before. -/
theorem follow_put_entry (hway : root.follow above = .ok place)
    (inside : root.get? place = some (.directory entries)) (proper : name ≠ "..")
    (hfree : ∀ node, Assoc.get? entries name = some node → ∃ content, node = .file content)
    (noLink : ∀ target, new ≠ .link target) :
    (root.put (place ++ [name]) new).follow (above ++ [name]) = .ok (place ++ [name]) := by
  have hkeeps := keepsWays_put inside new hfree
  obtain ⟨entries', inside'⟩ := hkeeps.directories inside
  have hnew := get?_put_entry_self inside name new
  rw [get?_entry inside'] at hnew
  exact followLinks_comp (hkeeps.follow inside hway)
    (followWith_cons_eq_ok.2 (.entry inside' proper hnew noLink rfl))

theorem makeDirectory_eq_ok (h : root.makeDirectory obstacles parts = .ok made) :
    ∃ above name place entries, parts = above ++ [name] ∧ root.follow above = .ok place ∧
      root.get? place = some (.directory entries) ∧ name ≠ ".." ∧
      Assoc.get? entries name = none ∧ made = root.put (place ++ [name]) emptyDirectory := by
  rcases List.eq_nil_or_concat' parts with rfl | ⟨above, name, rfl⟩
  · cases h
  · rw [makeDirectory, List.getLast?_concat, List.dropLast_concat] at h
    dsimp only at h
    split at h
    · cases h
    · next place hway =>
      split at h
      · next entries inside =>
        split at h
        · cases h
        · next hnew =>
          split at h
          · cases h
          · obtain ⟨proper, hfree⟩ := not_or.1 hnew
            exact ⟨above, name, place, entries, rfl, hway, inside, proper, by simpa using hfree,
              (Except.ok.inj h).symm⟩
      · cases h
      · cases h

theorem isDirectoryAt_of_makeDirectory (h : root.makeDirectory obstacles parts = .ok made) :
    made.isDirectoryAt parts = true := by
  obtain ⟨above, name, place, entries, rfl, hway, inside, proper, hfree, rfl⟩ :=
    makeDirectory_eq_ok h
  refine isDirectoryAt_iff.2 ⟨place ++ [name], [], ?_, ?_⟩
  · exact follow_put_entry hway inside proper (by simp [hfree]) (by simp [emptyDirectory])
  · exact get?_put_entry_self inside name emptyDirectory

/-- What making a directory and those above it does: at most one directory is made after those
    above, and if all goes well it is there. -/
theorem makeDirectories_cons {outcome : Except FileFault Unit}
    (h : root.makeDirectories obstacles (name :: above) = (made, outcome)) :
    ∃ tree, (tree = root ∨ ∃ outcome', root.makeDirectories obstacles above = (tree, outcome')) ∧
      (made = tree ∨ tree.makeDirectory obstacles (name :: above).reverse = .ok made) ∧
      (outcome = .ok () → made.isDirectoryAt (name :: above).reverse = true) := by
  have hsettle {tree : Node} {problem : FileProblem}
      (h : (if tree.isDirectoryAt (name :: above).reverse then (tree, .ok ())
        else (tree, .error ⟨problem, (Path.ofParts (name :: above).reverse).text⟩))
          = (made, outcome)) :
      made = tree ∧ (outcome = .ok () → made.isDirectoryAt (name :: above).reverse = true) := by
    split at h
    · next hthere =>
      obtain ⟨rfl, rfl⟩ := Prod.mk.inj h
      exact ⟨rfl, fun _ => hthere⟩
    · obtain ⟨rfl, rfl⟩ := Prod.mk.inj h
      exact ⟨rfl, fun hok => by cases hok⟩
  rw [makeDirectories] at h
  dsimp only at h
  split at h
  · next tree hmade =>
    obtain ⟨rfl, rfl⟩ := Prod.mk.inj h
    exact ⟨root, .inl rfl, .inr hmade, fun _ => isDirectoryAt_of_makeDirectory hmade⟩
  · split at h
    · next tree fault habove =>
      obtain ⟨rfl, rfl⟩ := Prod.mk.inj h
      exact ⟨tree, .inr ⟨_, habove⟩, .inl rfl, fun hok => by cases hok⟩
    · next tree habove =>
      split at h
      · next hmade =>
        obtain ⟨rfl, rfl⟩ := Prod.mk.inj h
        exact ⟨tree, .inr ⟨_, habove⟩, .inr hmade, fun _ => isDirectoryAt_of_makeDirectory hmade⟩
      · obtain ⟨rfl, rfl⟩ := Prod.mk.inj h
        exact ⟨tree, .inr ⟨_, habove⟩, .inl rfl, fun hok => by cases hok⟩
      · obtain ⟨hsame, hthere⟩ := hsettle h
        exact ⟨tree, .inr ⟨_, habove⟩, .inl hsame, hthere⟩
  · obtain ⟨hsame, hthere⟩ := hsettle h
    exact ⟨root, .inl rfl, .inl hsame, hthere⟩

/-- **Directories that are made are there.** -/
theorem makeDirectories_isDirectoryAt (hroot : root.isDirectory = true) {components : List String}
    (h : root.makeDirectories obstacles components = (made, .ok ())) :
    made.isDirectoryAt components.reverse = true := by
  cases components with
  | nil =>
    obtain ⟨rfl, -⟩ := Prod.mk.inj h
    cases root with
    | directory entries => rfl
    | file content => cases hroot
    | link target => cases hroot
  | cons name above =>
    obtain ⟨_, -, -, hthere⟩ := makeDirectories_cons h
    exact hthere rfl

/-- No link comes from a directory that is made. -/
theorem link_of_makeDirectory {target : String} (h : root.makeDirectory obstacles parts = .ok made)
    (hlink : made.get? place = some (.link target)) : root.get? place = some (.link target) := by
  obtain ⟨above, name, inner, entries, rfl, -, inside, -, -, rfl⟩ := makeDirectory_eq_ok h
  have hnew := get?_put_entry_self inside name emptyDirectory
  by_cases hbelow : inner ++ [name] <+: place
  · obtain ⟨below, rfl⟩ := hbelow
    rw [get?_append, hnew] at hlink
    cases below <;> cases hlink
  · rcases agreeOutside_put inside name emptyDirectory place hbelow with
      hsame | ⟨-, _, hdirectory⟩
    · rw [← hsame, hlink]
    · rw [hlink] at hdirectory
      cases hdirectory

theorem link_of_makeDirectories {target : String} {components : List String}
    {outcome : Except FileFault Unit}
    (h : root.makeDirectories obstacles components = (made, outcome))
    (hlink : made.get? place = some (.link target)) : root.get? place = some (.link target) := by
  induction components generalizing made outcome with
  | nil =>
    obtain ⟨rfl, -⟩ := Prod.mk.inj h
    exact hlink
  | cons name above ih =>
    obtain ⟨tree, htree, hmade, -⟩ := makeDirectories_cons h
    have hbefore : tree.get? place = some (.link target) := by
      rcases hmade with rfl | hmade
      · exact hlink
      · exact link_of_makeDirectory hmade hlink
    rcases htree with rfl | ⟨_, habove⟩
    · exact hbefore
    · exact ih habove hbefore

/-! ## Safe writes -/

/-- A rename that succeeds has put the content in place, where no directory was, and has left no
    temporary file. -/
theorem replaceIn_eq_ok (h : root.get? place = some (.directory entries))
    (hreplace : root.replaceIn obstacles place name content = (left, .ok ())) :
    left = root.put (place ++ [name]) (.file content) ∧
      ∀ inner, Assoc.get? entries name ≠ some (.directory inner) := by
  have hfresh := freshName_not_mem entries
  have hput := get?_put h (.directory (Assoc.set entries (freshName entries) (.file content)))
  simp only [replaceIn, h, Option.map_some, Option.getD_some, Node.entries, put_entry_twice h,
    erase_put_entry h hfresh] at hreplace
  split at hreplace
  · cases hreplace
  · split at hreplace
    · cases hreplace
    · split at hreplace
      · cases hreplace
      · split at hreplace
        · cases hreplace
        · next hno =>
          refine ⟨(Prod.mk.inj hreplace).1.symm, fun inner hdirectory => hno inner ?_⟩
          -- The temporary file has a name of its own, so it does not hide the directory.
          have hother : freshName entries ≠ name := by
            rintro rfl
            exact hfresh ((Assoc.mem_keys_iff _ _).2 ⟨_, hdirectory⟩)
          rw [put_entry h, get?_entry hput, Assoc.get?_set, if_neg hother, hdirectory]

theorem exists_follow_of_existsAt (h : root.existsAt parts = true) :
    ∃ last, root.follow parts = .ok last := by
  rw [existsAt] at h
  split at h
  · next node hnode =>
    obtain ⟨last, hlast, -⟩ := reach_eq_ok_iff.1 hnode
    exact ⟨last, hlast⟩
  · cases h

/-- The content has been put at a name in a directory of the tree, where a path leads and where no
    directory was. -/
structure Stored (made : Node) (above : List String) (name : String) (place : List String)
    (content : Bytes) (left : Node) : Prop where
  way : made.follow above = .ok place
  proper : name ≠ ".."
  inside : ∃ entries, made.get? place = some (.directory entries)
  noDirectory : ∀ inner, made.get? (place ++ [name]) ≠ some (.directory inner)
  put : left = made.put (place ++ [name]) (.file content)

/-- **What a safe write does**, when it succeeds: the directories above the target are made, and the
    content is put into the last of them. -/
theorem safeWrite_eq_ok (hroot : root.isDirectory = true)
    (h : root.safeWrite obstacles parts content = (left, .ok ())) :
    ∃ above name made place, parts = above ++ [name] ∧
      root.makeDirectories obstacles above.reverse = (made, .ok ()) ∧
      Stored made above name place content left := by
  rcases List.eq_nil_or_concat' parts with rfl | ⟨above, name, rfl⟩
  · cases h
  · rw [safeWrite, List.dropLast_concat, List.getLast?_concat] at h
    dsimp only at h
    split at h
    · cases h
    · next made hmade =>
      have hdirectory := makeDirectories_isDirectoryAt hroot hmade
      rw [List.reverse_reverse] at hdirectory
      obtain ⟨place, entries, way, inside⟩ := isDirectoryAt_iff.1 hdirectory
      rw [way] at h
      dsimp only at h
      split at h
      · cases h
      · next proper =>
        split at h
        · next hreplace =>
          obtain rfl := (Prod.mk.inj h).1
          obtain ⟨rfl, hno⟩ := replaceIn_eq_ok inside hreplace
          refine ⟨above, name, made, place, rfl, hmade, way, proper, ⟨entries, inside⟩, ?_, rfl⟩
          rwa [get?_entry inside]
        · cases h

namespace Stored

variable (h : Stored made above name place content left)

include h

theorem get?_eq : left.get? (place ++ [name]) = some (.file content) := by
  obtain ⟨entries, inside⟩ := h.inside
  rw [h.put]
  exact get?_put_entry_self inside name (.file content)

/-- Unless a link is replaced, the path leads to the content. -/
theorem follow_of_noLink (hlink : ∀ target, made.get? (place ++ [name]) ≠ some (.link target)) :
    left.follow (above ++ [name]) = .ok (place ++ [name]) := by
  obtain ⟨entries, inside⟩ := h.inside
  have hdirectory := h.noDirectory
  rw [h.put]
  refine follow_put_entry h.way inside h.proper ?_ (by simp)
  intro node hnode
  rw [get?_entry inside, hnode] at hdirectory hlink
  cases node with
  | file content => exact ⟨content, rfl⟩
  | link target => exact absurd rfl (hlink target)
  | directory inner => exact absurd rfl (hdirectory inner)

/-- The path leads to the content, if it leads anywhere: the link that has been replaced may have
    been on its way. -/
theorem follow_of_existsAt (hexists : left.existsAt (above ++ [name]) = true) :
    left.follow (above ++ [name]) = .ok (place ++ [name]) := by
  obtain ⟨entries, inside⟩ := h.inside
  have hkeeps := keepsWays_of_put inside name content
  rw [← h.put] at hkeeps
  obtain ⟨last, hlast⟩ := exists_follow_of_existsAt hexists
  obtain ⟨place', links, hway, hstep⟩ := follow_concat hlast
  -- Where the write put the content there is a file now, so the directory is the same as before.
  obtain ⟨_, hdirectory⟩ := hstep.isDirectory
  obtain rfl : place' = place :=
    Except.ok.inj ((hkeeps.follow hdirectory hway).symm.trans h.way)
  cases hstep with
  | up _ dots => exact absurd dots h.proper
  | link inside' _ found =>
    rw [← get?_entry inside', h.get?_eq] at found
    cases found
  | entry _ _ _ _ further =>
    obtain rfl : place' ++ [name] = last := Except.ok.inj further
    exact hlast

end Stored

end ProjectReview.Node
