import Mathlib.Data.List.Nodup
import Mathlib.Data.List.Perm.Subperm
import ProjectReview.Files.Write
import ProjectReview.Proofs.Maps
import ProjectReview.Proofs.Places

set_option autoImplicit false

/-! # What a safe write changes

A file that can be read is written safely over itself: no directory has to be made for it
(`makeDirectories_of_isDirectoryAt`), and the temporary file has a name that is not taken
(`freshName_not_mem`), so nothing of it is left. The write puts the new content in the place of the
file and does nothing else, which is the main result, `safeWrite_eq_put`. Files and links elsewhere
are as they were (`get?_put_of_ne`), and the path leads to the new content (`bytesAt_put`), also
where a link stood that has been replaced. -/

namespace ProjectReview

/-! ## Entries -/

namespace Assoc

variable {α : Type} {map : Assoc α} {key : String}

theorem erase_set (h : key ∉ map.keys) (value : α) : (map.set key value).erase key = map := by
  induction map with
  | nil => simp [set, erase]
  | cons entry rest ih =>
    obtain ⟨k, v⟩ := entry
    rw [keys, List.map_cons, List.mem_cons, not_or] at h
    have hk : k ≠ key := fun hsame => h.1 hsame.symm
    have hrest := ih h.2
    rw [set, if_neg hk, erase, List.filter_cons_of_pos (by simpa using hk)]
    exact congrArg _ hrest

end Assoc

namespace Node

variable {root node new : Node} {place parts : List String} {name : String}
  {entries : List (String × Node)}

/-! ## Nodes that are put somewhere -/

theorem get?_cons_eq_some {rest : List String} {found : Node} :
    root.get? (name :: rest) = some found ↔ ∃ entries child, root = .directory entries ∧
      Assoc.get? entries name = some child ∧ child.get? rest = some found := by
  constructor
  · intro h
    rw [get?] at h
    split at h
    · next child hchild =>
      cases root with
      | directory entries => exact ⟨entries, child, rfl, hchild, h⟩
      | file content => cases hchild
      | link target => cases hchild
    · cases h
  · rintro ⟨entries, child, rfl, hchild, h⟩
    rw [get?, Node.entries, hchild]
    exact h

/-- A node that is put below an entry is put into the node of the entry. -/
theorem put_cons {child : Node} (h : Assoc.get? entries name = some child) (rest : List String)
    (new : Node) :
    (directory entries).put (name :: rest) new
      = directory (Assoc.set entries name (child.put rest new)) := by
  cases rest with
  | nil => rw [put, put]
  | cons next rest =>
    rw [put, h]
    exact List.cons_ne_nil next rest

theorem erase_cons {child : Node} (h : Assoc.get? entries name = some child) {rest : List String}
    (hrest : rest ≠ []) :
    (directory entries).erase (name :: rest)
      = directory (Assoc.set entries name (child.erase rest)) := by
  rw [erase, h]
  exact hrest

theorem get?_put (h : root.get? place = some node) (new : Node) :
    (root.put place new).get? place = some new := by
  induction place generalizing root with
  | nil => rfl
  | cons name rest ih =>
    obtain ⟨entries, child, rfl, hchild, h⟩ := get?_cons_eq_some.1 h
    rw [put_cons hchild, get?_cons_eq_some]
    exact ⟨_, _, rfl, by rw [Assoc.get?_set, if_pos rfl], ih h⟩

theorem put_put (h : root.get? place = some node) (first second : Node) :
    (root.put place first).put place second = root.put place second := by
  induction place generalizing root with
  | nil => rfl
  | cons name rest ih =>
    obtain ⟨entries, child, rfl, hchild, h⟩ := get?_cons_eq_some.1 h
    have hput : Assoc.get? (Assoc.set entries name (child.put rest first)) name
        = some (child.put rest first) := by rw [Assoc.get?_set, if_pos rfl]
    rw [put_cons hchild, put_cons hput, put_cons hchild, Assoc.set_set, ih h]

theorem put_eq_self (h : root.get? place = some node) : root.put place node = root := by
  induction place generalizing root with
  | nil => exact (Option.some.inj h).symm
  | cons name rest ih =>
    obtain ⟨entries, child, rfl, hchild, h⟩ := get?_cons_eq_some.1 h
    rw [put_cons hchild, ih h, Assoc.set_eq_self hchild]

/-- A node is put into a directory by putting the directory with the node in it. -/
theorem put_entry (h : root.get? place = some (.directory entries)) (name : String) (new : Node) :
    root.put (place ++ [name]) new = root.put place (.directory (Assoc.set entries name new)) := by
  induction place generalizing root with
  | nil =>
    obtain rfl := Option.some.inj h
    rfl
  | cons next rest ih =>
    obtain ⟨above, child, rfl, hchild, h⟩ := get?_cons_eq_some.1 h
    rw [List.cons_append, put_cons hchild, put_cons hchild, ih h]

theorem erase_entry (h : root.get? place = some (.directory entries)) (name : String) :
    root.erase (place ++ [name]) = root.put place (.directory (Assoc.erase entries name)) := by
  induction place generalizing root with
  | nil =>
    obtain rfl := Option.some.inj h
    rfl
  | cons next rest ih =>
    obtain ⟨above, child, rfl, hchild, h⟩ := get?_cons_eq_some.1 h
    rw [List.cons_append, erase_cons hchild (by simp), put_cons hchild, ih h]

/-! ## What stays as it is -/

theorem get?_put_append (h : root.get? place = some node) (new : Node) (below : List String) :
    (root.put place new).get? (place ++ below) = new.get? below := by
  rw [get?_append, get?_put h]
  rfl

/-- The nodes on the way to a node that is put somewhere have it put into them. -/
theorem get?_put_above (h : root.get? place = some node) (below : List String) (new : Node) :
    (root.put (place ++ below) new).get? place = some (node.put below new) := by
  induction place generalizing root with
  | nil => rw [← Option.some.inj h]; rfl
  | cons name rest ih =>
    obtain ⟨entries, child, rfl, hchild, h⟩ := get?_cons_eq_some.1 h
    rw [List.cons_append, put_cons hchild, get?_cons_eq_some]
    exact ⟨_, _, rfl, by rw [Assoc.get?_set, if_pos rfl], ih h⟩

theorem get?_put_apart (h : root.get? place = some node) (new : Node) {other : List String}
    (hbelow : ¬ place <+: other) (habove : ¬ other <+: place) :
    (root.put place new).get? other = root.get? other := by
  induction place generalizing root other with
  | nil => exact absurd (List.nil_prefix) hbelow
  | cons name rest ih =>
    obtain ⟨entries, child, rfl, hchild, h⟩ := get?_cons_eq_some.1 h
    cases other with
    | nil => exact absurd (List.nil_prefix) habove
    | cons first others =>
      rw [put_cons hchild, get?, get?, Node.entries, Node.entries, Assoc.get?_set]
      by_cases hname : name = first
      · subst hname
        rw [List.prefix_cons_inj] at hbelow habove
        rw [if_pos rfl, hchild]
        exact ih h hbelow habove
      · rw [if_neg hname]

theorem get?_of_isDirectory_eq_false (h : node.isDirectory = false) {below : List String}
    (hbelow : below ≠ []) : node.get? below = none := by
  cases below with
  | nil => exact absurd rfl hbelow
  | cons name rest =>
    cases node with
    | directory entries => cases h
    | file content => rfl
    | link target => rfl

/-- A node that holds others is a directory, also after one is put into it. -/
theorem directory_of_get? {below : List String} {found : Node} (h : node.get? below = some found)
    (hbelow : below ≠ []) (new : Node) :
    (∃ entries, node = .directory entries) ∧
      ∃ entries, node.put below new = .directory entries := by
  cases below with
  | nil => exact absurd rfl hbelow
  | cons name rest =>
    obtain ⟨entries, child, rfl, hchild, -⟩ := get?_cons_eq_some.1 h
    rw [put_cons hchild]
    exact ⟨⟨_, rfl⟩, _, rfl⟩

theorem directory_of_dropLast (h : root.get? place = some (.directory entries)) :
    ∃ entries, root.get? place.dropLast = some (.directory entries) := by
  rcases List.eq_nil_or_concat' place with rfl | ⟨above, name, rfl⟩
  · exact ⟨entries, h⟩
  · rw [get?_append] at h
    obtain ⟨inner, hinner, h⟩ := Option.bind_eq_some_iff.1 h
    obtain ⟨⟨entries, rfl⟩, -⟩ := directory_of_get? h (by simp) root
    rw [List.dropLast_concat]
    exact ⟨entries, hinner⟩

/-- **Putting a file in the place of a file or link leaves all other nodes alone**, and directories
    are directories as before. -/
theorem get?_put_of_ne (h : root.get? place = some node) (hnode : node.isDirectory = false)
    (content : Bytes) {other : List String} (hother : other ≠ place) :
    (root.put place (.file content)).get? other = root.get? other ∨
      (∃ entries, root.get? other = some (.directory entries)) ∧
        ∃ entries, (root.put place (.file content)).get? other = some (.directory entries) := by
  by_cases hbelow : place <+: other
  · -- There is nothing below a file or link.
    obtain ⟨below, rfl⟩ := hbelow
    have hne : below ≠ [] := by
      rintro rfl
      exact hother (List.append_nil place)
    rw [get?_put_append h, get?_append, h]
    left
    exact (get?_of_isDirectory_eq_false rfl hne).trans
      (get?_of_isDirectory_eq_false hnode hne).symm
  · by_cases habove : other <+: place
    · -- What holds the file or link is a directory.
      obtain ⟨below, rfl⟩ := habove
      have hne : below ≠ [] := by
        rintro rfl
        exact hother (List.append_nil other).symm
      rw [get?_append] at h
      obtain ⟨inner, hinner, h⟩ := Option.bind_eq_some_iff.1 h
      rw [get?_put_above hinner, hinner]
      right
      simpa using directory_of_get? h hne (.file content)
    · exact Or.inl (get?_put_apart h _ hbelow habove)

/-! ## Temporary names -/

theorem temporaryName_injective {m n : Nat}
    (h : "tmp" ++ toString m ++ ".tmp" = "tmp" ++ toString n ++ ".tmp") : m = n := by
  have hdigits : Nat.toDigits 10 m = Nat.toDigits 10 n := by
    simpa using congrArg String.toList h
  calc m = Nat.ofDigitChars 10 (Nat.toDigits 10 m) 0 := Nat.ofDigitChars_ten_toDigits.symm
    _ = Nat.ofDigitChars 10 (Nat.toDigits 10 n) 0 := by rw [hdigits]
    _ = n := Nat.ofDigitChars_ten_toDigits

/-- **A temporary name is not taken**: there are more of them than entries. -/
theorem freshName_not_mem (entries : Assoc Node) : freshName entries ∉ entries.keys := by
  rw [freshName]
  generalize hnames : (List.range (entries.length + 1)).map
    (fun n => "tmp" ++ toString n ++ ".tmp") = names
  cases hfind : names.find? fun name => !entries.has name with
  | some name =>
    have hfree := List.find?_some hfind
    rw [Bool.not_eq_true', ← Bool.not_eq_true, Assoc.has_iff] at hfree
    exact hfree
  | none =>
    -- The names are all different, so there would be more keys than entries.
    have hnodup : names.Nodup := by
      rw [← hnames]
      exact List.nodup_range.map fun m n => temporaryName_injective
    have hsubset : names ⊆ entries.keys := by
      intro name hname
      have htaken := List.find?_eq_none.1 hfind name hname
      rw [Bool.not_eq_true', Bool.not_eq_false] at htaken
      exact (Assoc.has_iff entries name).1 htaken
    have hlength := (List.subperm_of_subset hnodup hsubset).length_le
    rw [← hnames] at hlength
    simp [Assoc.keys] at hlength

/-! ## Safe writes -/

/-- A temporary file that is written and removed again leaves no trace. -/
theorem erase_put_entry (h : root.get? place = some (.directory entries))
    (hname : name ∉ Assoc.keys entries) (new : Node) :
    (root.put (place ++ [name]) new).erase (place ++ [name]) = root := by
  have hput := get?_put h (.directory (Assoc.set entries name new))
  rw [put_entry h, erase_entry hput, put_put h, Assoc.erase_set hname, put_eq_self h]

theorem put_entry_twice (h : root.get? place = some (.directory entries)) (name : String)
    (first second : Node) :
    (root.put (place ++ [name]) first).put (place ++ [name]) second
      = root.put (place ++ [name]) second := by
  have hput := get?_put h (.directory (Assoc.set entries name first))
  rw [put_entry h, put_entry hput, put_put h, Assoc.set_set, put_entry h]

/-- Content is put at a name of a directory where no directory is, and the temporary file leaves no
    trace. -/
theorem replaceIn_of_noDirectory (h : root.get? place = some (.directory entries))
    (hno : ∀ inner, Assoc.get? entries name ≠ some (.directory inner)) (content : Bytes) :
    root.replaceIn {} place name content
      = (root.put (place ++ [name]) (.file content), .ok ()) := by
  have hfresh := freshName_not_mem entries
  have hput := get?_put h (.directory (Assoc.set entries (freshName entries) (.file content)))
  simp only [replaceIn, h, Option.map_some, Option.getD_some, Node.entries, put_entry_twice h,
    erase_put_entry h hfresh]
  split
  · next inner hinner =>
    rw [put_entry h, get?_entry hput, Assoc.get?_set] at hinner
    split at hinner
    · cases hinner
    · exact absurd hinner (hno inner)
  · rfl

/-- Content replaces a file or link of a directory. -/
theorem replaceIn_eq_put (h : root.get? place = some (.directory entries))
    (hfound : Assoc.get? entries name = some node) (hnode : node.isDirectory = false)
    (content : Bytes) :
    root.replaceIn {} place name content
      = (root.put (place ++ [name]) (.file content), .ok ()) := by
  refine replaceIn_of_noDirectory h (fun inner hinner => ?_) content
  obtain rfl := Option.some.inj (hfound.symm.trans hinner)
  cases hnode

theorem makeDirectory_of_isDirectoryAt (h : root.isDirectoryAt parts = true) :
    root.makeDirectory {} parts = .error .alreadyExists := by
  obtain ⟨last, inner, hfollow, -⟩ := isDirectoryAt_iff.1 h
  rcases List.eq_nil_or_concat' parts with rfl | ⟨above, name, rfl⟩
  · rfl
  · obtain ⟨place, links, habove, hstep⟩ := follow_concat hfollow
    rw [makeDirectory, List.getLast?_concat, List.dropLast_concat]
    simp only [habove]
    cases hstep with
    | up inside dots => simp [inside, dots]
    | link inside proper found => simp [inside, found]
    | entry inside proper found => simp [inside, found]

/-- No directory is made where one is. -/
theorem makeDirectories_of_isDirectoryAt (h : root.isDirectoryAt parts = true) :
    root.makeDirectories {} parts.reverse = (root, .ok ()) := by
  cases hparts : parts.reverse with
  | nil => rfl
  | cons name above =>
    obtain rfl : parts = (name :: above).reverse := by rw [← hparts, List.reverse_reverse]
    rw [makeDirectories, makeDirectory_of_isDirectoryAt h]
    simp only [h, if_true]

/-- The place of the entry that a path names. A link on the way there is followed, one at the place
    is not. -/
def entryPlace? (root : Node) (parts : List String) : Option (List String) :=
  match root.follow parts.dropLast, parts.getLast? with
  | .ok place, some name => some (place ++ [name])
  | _, _ => none

theorem bytesAt_eq_ok_iff {content : Bytes} :
    root.bytesAt parts = .ok content ↔
      ∃ place, root.follow parts = .ok place ∧ root.get? place = some (.file content) := by
  rw [← reach_eq_ok_iff, bytesAt]
  cases root.reach parts with
  | error problem => simp
  | ok node =>
    cases node with
    | file found => simp
    | link target => simp
    | directory entries => simp

/-- The path names a file or a link to one: where the directory is that it is in, and what stands
    there. -/
structure NamesFile (root : Node) (above : List String) (name : String) (place : List String)
    (node : Node) : Prop where
  way : root.follow above = .ok place
  proper : name ≠ ".."
  inside : ∃ entries, root.get? place = some (.directory entries) ∧
    Assoc.get? entries name = some node
  noDirectory : node.isDirectory = false
  leads : ∀ target, node = .link target → ∃ links last content,
    followLinks root links (linkStart place target) (Path.ofText target).parts = .ok last ∧
      root.get? last = some (.file content)

theorem namesFile_of_bytesAt {above : List String} {content : Bytes}
    (h : root.bytesAt (above ++ [name]) = .ok content) :
    ∃ place node, NamesFile root above name place node := by
  obtain ⟨last, hfollow, hlast⟩ := bytesAt_eq_ok_iff.1 h
  obtain ⟨place, links, hway, hstep⟩ := follow_concat hfollow
  cases hstep with
  | up inside _ further =>
    -- Above a directory there is a directory, and no file.
    obtain rfl : place.dropLast = last := Except.ok.inj further
    obtain ⟨entries, hdirectory⟩ := directory_of_dropLast inside
    rw [hdirectory] at hlast
    cases hlast
  | @link entries target inside proper found behind =>
    refine ⟨place, .link target, hway, proper, ⟨entries, inside, found⟩, rfl, ?_⟩
    intro other hother
    obtain rfl := Node.link.inj hother
    rw [List.append_nil] at behind
    exact ⟨links, last, content, behind, hlast⟩
  | @entry entries node inside proper found noLink further =>
    -- The path ends here, so this is the file that was read.
    obtain rfl : place ++ [name] = last := Except.ok.inj further
    rw [get?_entry inside, found] at hlast
    obtain rfl := Option.some.inj hlast
    exact ⟨place, _, hway, proper, ⟨entries, inside, found⟩, rfl, fun _ hother => nomatch hother⟩

namespace NamesFile

variable {above : List String}

theorem entryPlace?_eq (h : NamesFile root above name place node) :
    root.entryPlace? (above ++ [name]) = some (place ++ [name]) := by
  rw [entryPlace?, List.dropLast_concat, h.way, List.getLast?_concat]

theorem get?_eq (h : NamesFile root above name place node) :
    root.get? (place ++ [name]) = some node := by
  obtain ⟨entries, inside, found⟩ := h.inside
  rw [get?_entry inside, found]

/-- A safe write over a file puts the new content in its place and does nothing else. -/
theorem safeWrite_eq (h : NamesFile root above name place node) (content : Bytes) :
    root.safeWrite {} (above ++ [name]) content
      = (root.put (place ++ [name]) (.file content), .ok ()) := by
  obtain ⟨entries, inside, found⟩ := h.inside
  have hdirectory := isDirectoryAt_iff.2 ⟨place, entries, h.way, inside⟩
  simp only [safeWrite, List.dropLast_concat, makeDirectories_of_isDirectoryAt hdirectory, h.way,
    List.getLast?_concat, if_neg h.proper,
    replaceIn_eq_put inside found h.noDirectory content]

/-- Nothing is reached through the file. -/
theorem reach_through (h : NamesFile root above name place node) {target : String}
    (hlink : node = .link target) {links : Nat} {rest last : List String}
    (hlast : followLinks root links (linkStart place target) ((Path.ofText target).parts ++ rest)
      = .ok last) : ∃ content, root.get? last = some (.file content) := by
  obtain ⟨_, file, content, hfile, hcontent⟩ := h.leads target hlink
  obtain ⟨middle, hmiddle, left, hrest⟩ := followLinks_append hlast
  obtain rfl := followLinks_unique hfile hmiddle
  rw [followLinks_of_file hcontent hrest]
  exact ⟨content, hcontent⟩

theorem get?_put_directory (h : NamesFile root above name place node) (content : Bytes)
    {other : List String} {entries : List (String × Node)}
    (hother : root.get? other = some (.directory entries)) :
    ∃ entries', (root.put (place ++ [name]) (.file content)).get? other
      = some (.directory entries') := by
  have hne : other ≠ place ++ [name] := by
    rintro rfl
    obtain rfl := Option.some.inj (h.get?_eq.symm.trans hother)
    cases h.noDirectory
  rcases get?_put_of_ne h.get?_eq h.noDirectory content hne with hsame | ⟨-, hdirectory⟩
  · exact ⟨entries, hsame.trans hother⟩
  · exact hdirectory

/-- A path that leads to a directory leads there after the write, too, since it does not lead
    through the file. -/
theorem followWith_put (h : NamesFile root above name place node) (content : Bytes)
    {onLink onLink' : List String → List String → Except FileProblem (List String)}
    {last start : List String} (hlast : ∃ entries, root.get? last = some (.directory entries))
    (hlink : ∀ start rest, onLink start rest = .ok last → onLink' start rest = .ok last)
    (hthrough : ∀ target rest, node = .link target →
      onLink (linkStart place target) ((Path.ofText target).parts ++ rest) ≠ .ok last)
    (hfollow : followWith root onLink start parts = .ok last) :
    followWith (root.put (place ++ [name]) (.file content)) onLink' start parts = .ok last := by
  induction parts generalizing start with
  | nil => exact hfollow
  | cons next rest ih =>
    rw [followWith_cons_eq_ok]
    cases followWith_cons_eq_ok.1 hfollow with
    | up inside dots further =>
      obtain ⟨_, inside'⟩ := h.get?_put_directory content inside
      exact .up inside' dots (ih further)
    | link inside proper found behind =>
      obtain ⟨_, inside'⟩ := h.get?_put_directory content inside
      have hhere := (get?_entry inside next).trans found
      by_cases hsame : start ++ [next] = place ++ [name]
      · -- This is the link that is replaced, and it led to a file.
        obtain ⟨rfl, rfl⟩ := List.append_singleton_inj.1 hsame
        have hnode := Option.some.inj (h.get?_eq.symm.trans hhere)
        exact absurd behind (hthrough _ _ hnode)
      · rcases get?_put_of_ne h.get?_eq h.noDirectory content hsame with
          hkept | ⟨⟨_, hdirectory⟩, -⟩
        · rw [get?_entry inside', hhere] at hkept
          exact .link inside' proper hkept (hlink _ _ behind)
        · rw [hhere] at hdirectory
          cases hdirectory
    | @entry _ found' inside proper found noLink further =>
      obtain ⟨_, inside'⟩ := h.get?_put_directory content inside
      have hhere := (get?_entry inside next).trans found
      by_cases hsame : start ++ [next] = place ++ [name]
      · -- The path would end at the file or lead on from it.
        obtain rfl := Option.some.inj (h.get?_eq.symm.trans (hsame ▸ hhere))
        obtain ⟨_, hlast⟩ := hlast
        cases rest with
        | nil =>
          obtain rfl : start ++ [next] = last := Except.ok.inj further
          obtain rfl := Option.some.inj (hhere.symm.trans hlast)
          cases h.noDirectory
        | cons =>
          obtain ⟨_, hdirectory⟩ := (followWith_cons_eq_ok.1 further).isDirectory
          obtain rfl := Option.some.inj (hhere.symm.trans hdirectory)
          cases h.noDirectory
      · rcases get?_put_of_ne h.get?_eq h.noDirectory content hsame with hkept | ⟨-, _, hdirectory⟩
        · rw [get?_entry inside', hhere] at hkept
          exact .entry inside' proper hkept noLink (ih further)
        · rw [get?_entry inside'] at hdirectory
          exact .entry inside' proper hdirectory (fun _ hother => by cases hother) (ih further)

theorem followLinks_put (h : NamesFile root above name place node) (content : Bytes) {links : Nat}
    {last start : List String} (hlast : ∃ entries, root.get? last = some (.directory entries))
    (hfollow : followLinks root links start parts = .ok last) :
    followLinks (root.put (place ++ [name]) (.file content)) links start parts = .ok last := by
  induction links generalizing start parts with
  | zero =>
    exact h.followWith_put content hlast (fun _ _ hnone => by cases hnone)
      (fun _ _ _ hnone => by cases hnone) hfollow
  | succ links ih =>
    refine h.followWith_put content hlast (fun _ _ => ih) ?_ hfollow
    intro target rest hlink hthrough
    obtain ⟨_, hfile⟩ := h.reach_through hlink hthrough
    obtain ⟨_, hdirectory⟩ := hlast
    rw [hfile] at hdirectory
    cases hdirectory

/-- The path leads to what was written. -/
theorem bytesAt_put (h : NamesFile root above name place node) (content : Bytes) :
    (root.put (place ++ [name]) (.file content)).bytesAt (above ++ [name]) = .ok content := by
  obtain ⟨entries, inside, -⟩ := h.inside
  obtain ⟨entries', inside'⟩ := h.get?_put_directory content inside
  have hway := h.followLinks_put content ⟨entries, inside⟩ h.way
  have hfile := get?_put h.get?_eq (.file content)
  have hfound : Assoc.get? entries' name = some (.file content) := by
    rw [← get?_entry inside', hfile]
  have hname : followLinks (root.put (place ++ [name]) (.file content)) 0 place [name]
      = .ok (place ++ [name]) :=
    followWith_cons_eq_ok.2 (.entry inside' h.proper hfound (fun _ hother => by cases hother) rfl)
  exact bytesAt_eq_ok_iff.2 ⟨_, followLinks_comp hway hname, hfile⟩

end NamesFile

/-- **What a safe write over a file that can be read does.** The content is put in the place of the
    entry that the path names, and then the path leads to it. -/
theorem safeWrite_eq_put {old : Bytes} (hparts : parts ≠ []) (hread : root.bytesAt parts = .ok old)
    (content : Bytes) :
    ∃ target node, root.entryPlace? parts = some target ∧ root.get? target = some node ∧
      node.isDirectory = false ∧
      root.safeWrite {} parts content = (root.put target (.file content), .ok ()) ∧
      (root.put target (.file content)).bytesAt parts = .ok content := by
  rcases List.eq_nil_or_concat' parts with rfl | ⟨above, name, rfl⟩
  · exact absurd rfl hparts
  · obtain ⟨place, node, hnames⟩ := namesFile_of_bytesAt hread
    exact ⟨_, node, hnames.entryPlace?_eq, hnames.get?_eq, hnames.noDirectory,
      hnames.safeWrite_eq content, hnames.bytesAt_put content⟩

end Node

end ProjectReview
