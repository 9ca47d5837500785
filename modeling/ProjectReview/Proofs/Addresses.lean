import ProjectReview.Proofs.Excluding
import ProjectReview.Proofs.Places

set_option autoImplicit false

/-! # Addresses of files

The `Address` of a file below a directory is the list of directories on the way to it, and its name.
Its path has slashes between them, and where no name has a slash the path tells the address
(`Address.eq_of_path_eq`). A search shows a file with slashes for the backslashes of its
directories, so that the path that is shown is that of the file just where there are none
(`Address.plain_of_shown_eq`).

`Node.addresses` lists all files below a directory of a tree, without regard to patterns and
exclusions: each file that is there (`Node.mem_addresses`), and each once (`Node.nodup_addresses`).
-/

namespace ProjectReview

/-! ## Backslashes -/

theorem not_backslash_mem_forwardSlashes (path : String) :
    '\x5c' ∉ (forwardSlashes path).toList := by
  rw [forwardSlashes, String.toList_ofList, List.mem_map]
  rintro ⟨c, -, hc⟩
  split at hc
  · exact absurd hc (by decide)
  · next hne => exact hne hc

theorem forwardSlashes_eq_self_iff (path : String) :
    forwardSlashes path = path ↔ '\x5c' ∉ path.toList := by
  constructor
  · intro h
    rw [← h]
    exact not_backslash_mem_forwardSlashes path
  · intro h
    have hstays : ∀ c ∈ path.toList, (if c = '\x5c' then '/' else c) = id c := by
      rintro c hc
      rw [if_neg (by rintro rfl; exact h hc), id]
    rw [forwardSlashes, List.map_congr_left hstays, List.map_id, String.ofList_toList]

@[simp] theorem forwardSlashes_forwardSlashes (path : String) :
    forwardSlashes (forwardSlashes path) = forwardSlashes path :=
  (forwardSlashes_eq_self_iff _).2 (not_backslash_mem_forwardSlashes path)

/-- A path that gets no slash from its backslashes has none. -/
theorem eq_of_forwardSlashes_eq {path text : String} (h : forwardSlashes path = text)
    (htext : '/' ∉ text.toList) : path = text := by
  rw [← h] at htext ⊢
  refine ((forwardSlashes_eq_self_iff path).2 fun hmem => htext ?_).symm
  rw [forwardSlashes, String.toList_ofList, List.mem_map]
  exact ⟨_, hmem, rfl⟩

/-! ## Paths of directories -/

/-- The path that leads through some directories, with a slash behind it; the empty text for none.
-/
def openPath : List String → String
  | [] => ""
  | name :: rest => name ++ "/" ++ openPath rest

theorem openPath_append (names others : List String) :
    openPath (names ++ others) = openPath names ++ openPath others := by
  induction names with
  | nil => simp [openPath]
  | cons name rest ih => simp only [List.cons_append, openPath, ih, String.append_assoc]

theorem slashed_concat (names : List String) (name : String) :
    Path.slashed (names ++ [name]) = openPath names ++ name := by
  rw [Path.slashed]
  induction names with
  | nil => simp [joinTexts, openPath]
  | cons first rest ih =>
    rw [List.cons_append, joinTexts, ih, openPath, ← String.append_assoc]
    exact List.append_ne_nil_of_right_ne_nil rest (List.cons_ne_nil _ _)

theorem endsOpen_openPath (names : List String) : EndsOpen (openPath names) := by
  induction names with
  | nil => exact Or.inl rfl
  | cons name rest ih => exact EndsOpen.append (Or.inr ⟨name, rfl⟩) ih

theorem mem_openPath {names : List String} {c : Char} (hc : c ≠ '/') :
    c ∈ (openPath names).toList ↔ ∃ name ∈ names, c ∈ name.toList := by
  induction names with
  | nil => simp [openPath]
  | cons name rest ih =>
    rw [openPath, String.toList_append, String.toList_append, List.mem_append, List.mem_append, ih,
      List.exists_mem_cons_iff]
    simp [hc]

theorem cutAt_of_not_mem {c : Char} {s : List Char} (h : c ∉ s) : cutAt c s = [s] := by
  induction s with
  | nil => rfl
  | cons x xs ih =>
    rw [List.mem_cons, not_or] at h
    rw [cutAt, if_neg fun hsame => h.1 hsame.symm, ih h.2]

/-! ## Files and their paths -/

/-- The name of an entry of a directory: not empty, without slashes and no dots that lead elsewhere.
-/
structure ProperName (name : String) : Prop where
  nonempty : name ≠ ""
  noSlash : '/' ∉ name.toList
  noDot : name ≠ "."
  noDots : name ≠ ".."

instance (name : String) : Decidable (ProperName name) :=
  decidable_of_iff (name ≠ "" ∧ '/' ∉ name.toList ∧ name ≠ "." ∧ name ≠ "..")
    ⟨fun ⟨nonempty, noSlash, noDot, noDots⟩ => ⟨nonempty, noSlash, noDot, noDots⟩,
      fun ⟨nonempty, noSlash, noDot, noDots⟩ => ⟨nonempty, noSlash, noDot, noDots⟩⟩

/-- A directory's path is neither empty nor a single dot. -/
theorem ProperName.openPath_append_ne {name : String} (h : ProperName name) (names : List String) :
    openPath names ++ name ≠ "" ∧ openPath names ++ name ≠ "." := by
  have hlast := lastSegment_append (endsOpen_openPath names) h.noSlash
  constructor
  · intro heq
    rw [heq] at hlast
    exact h.nonempty hlast.symm
  · intro heq
    rw [heq] at hlast
    exact h.noDot hlast.symm

/-- Where a file is below a directory: the directories on the way to it, and its name. -/
structure Address where
  directories : List String
  name : String
deriving DecidableEq

namespace Address

variable {file other : Address}

/-- The components of the path. -/
def names (file : Address) : List String :=
  file.directories ++ [file.name]

/-- The path of the file relative to the directory. -/
def path (file : Address) : String :=
  Path.slashed file.names

/-- The path under which a search shows the file. -/
def shown (file : Address) : String :=
  forwardSlashes (openPath file.directories) ++ file.name

/-- No directory on the way to the file has a backslash in its name. -/
def Plain (file : Address) : Prop :=
  ∀ directory ∈ file.directories, '\x5c' ∉ directory.toList

theorem names_injective : Function.Injective names := by
  intro a b h
  obtain ⟨hdirectories, hname⟩ := List.append_inj' h rfl
  rw [Address.mk.injEq]
  exact ⟨hdirectories, List.singleton_inj.1 hname⟩

theorem path_eq (file : Address) : file.path = openPath file.directories ++ file.name :=
  slashed_concat file.directories file.name

theorem forwardSlashes_shown (file : Address) :
    forwardSlashes file.shown = forwardSlashes file.path := by
  rw [path_eq, shown, forwardSlashes_append, forwardSlashes_append, forwardSlashes_forwardSlashes]

theorem plain_iff (file : Address) :
    file.Plain ↔ forwardSlashes (openPath file.directories) = openPath file.directories := by
  rw [forwardSlashes_eq_self_iff, mem_openPath (by decide), Plain]
  simp

theorem Plain.shown_eq (h : file.Plain) : file.shown = file.path := by
  rw [shown, path_eq, (plain_iff file).1 h]

/-- Cutting a path at its slashes gives the names back. -/
theorem cutAt_path (h : ∀ name ∈ file.names, '/' ∉ name.toList) :
    cutAt '/' file.path.toList = file.names.map String.toList := by
  obtain ⟨directories, name⟩ := file
  rw [path_eq]
  simp only [names, List.forall_mem_append, List.forall_mem_singleton] at h ⊢
  obtain ⟨hdirectories, hname⟩ := h
  induction directories with
  | nil => simp [openPath, cutAt_of_not_mem hname]
  | cons first rest ih =>
    rw [List.forall_mem_cons] at hdirectories
    have hcut := cutAt_append_cons '/' first.toList (openPath rest ++ name).toList
    rw [cutAt_of_not_mem hdirectories.1, ih hdirectories.2] at hcut
    rw [openPath, String.append_assoc, String.append_assoc, String.toList_append,
      String.toList_append]
    exact hcut

theorem eq_of_path_eq (hfile : ∀ name ∈ file.names, '/' ∉ name.toList)
    (hother : ∀ name ∈ other.names, '/' ∉ name.toList) (h : file.path = other.path) :
    file = other := by
  have hcut := cutAt_path hfile
  rw [h, cutAt_path hother] at hcut
  exact names_injective (List.map_injective_iff.2 (fun _ _ => String.toList_inj.1) hcut).symm

/-- A path that is shown has no backslash before its last slash. -/
theorem plain_of_shown_eq (hfile : '/' ∉ file.name.toList) (hother : '/' ∉ other.name.toList)
    (h : other.shown = file.path) : file.Plain := by
  have hopen : EndsOpen (forwardSlashes (openPath other.directories)) := by
    rcases endsOpen_openPath other.directories with heq | ⟨start, heq⟩
    · exact Or.inl (by rw [heq]; rfl)
    · exact Or.inr ⟨forwardSlashes start, by rw [heq, forwardSlashes_append, forwardSlashes_slash]⟩
  rw [shown, path_eq] at h
  have hname : other.name = file.name := by
    rw [← lastSegment_append hopen hother, h,
      lastSegment_append (endsOpen_openPath file.directories) hfile]
  rw [hname, String.append_left_inj] at h
  rw [plain_iff, ← h, forwardSlashes_forwardSlashes]

end Address

/-! ## The files of a tree -/

namespace Node

/-- A directory's entries have proper and distinct names, and so throughout the tree. -/
inductive ProperlyNamed : Node → Prop
  | file (content : Bytes) : ProperlyNamed (.file content)
  | link (target : String) : ProperlyNamed (.link target)
  | directory {entries : List (String × Node)} (names : ∀ entry ∈ entries, ProperName entry.1)
      (distinct : (Assoc.keys entries).Nodup) (nodes : ∀ entry ∈ entries, entry.2.ProperlyNamed) :
      ProperlyNamed (.directory entries)

/-- What components lead to is properly named, and so are the components. -/
theorem ProperlyNamed.get? {node found : Node} (h : node.ProperlyNamed) {names : List String}
    (hfound : node.get? names = some found) :
    found.ProperlyNamed ∧ ∀ name ∈ names, ProperName name := by
  induction names generalizing node with
  | nil =>
    obtain rfl : node = found := Option.some.inj hfound
    exact ⟨h, by simp⟩
  | cons name rest ih =>
    rw [Node.get?] at hfound
    split at hfound
    · next child hchild =>
      cases h with
      | directory hnames _ hnodes =>
        have hmem := Assoc.mem_of_get? hchild
        obtain ⟨hproper, hrest⟩ := ih (hnodes _ hmem) hfound
        exact ⟨hproper, List.forall_mem_cons.2 ⟨hnames _ hmem, hrest⟩⟩
      | file content => cases hchild
      | link target => cases hchild
    · cases hfound

/-- A file is there, or a link that does not lead to a directory. -/
def holdsFileAt (root : Node) (place : List String) : Bool :=
  match root.get? place with
  | some (.file _) => true
  | some (.link _) => !root.isDirectoryAt place
  | _ => false

theorem exists_of_holdsFileAt {root : Node} {place : List String}
    (h : root.holdsFileAt place = true) : ∃ node, root.get? place = some node := by
  rw [holdsFileAt] at h
  cases hnode : root.get? place with
  | none => simp [hnode] at h
  | some node => exact ⟨node, rfl⟩

mutual

/-- The files at a node and below it. The directories lead to the one that holds the node, from the
directory at `place`. -/
def addressesAt (root : Node) (place directories : List String) (name : String) :
    Node → List Address
  | .file _ => [⟨directories, name⟩]
  | .link _ =>
    if root.isDirectoryAt (place ++ directories ++ [name]) then [] else [⟨directories, name⟩]
  | .directory entries => addressesAmong root place (directories ++ [name]) entries

/-- The files among the entries of a directory and below them. -/
def addressesAmong (root : Node) (place directories : List String) :
    List (String × Node) → List Address
  | [] => []
  | (name, node) :: rest =>
    addressesAt root place directories name node ++ addressesAmong root place directories rest

end

/-- The files below the directory at `place`. -/
def addresses (root : Node) (place : List String) : List Address :=
  match root.get? place with
  | some (.directory entries) => addressesAmong root place [] entries
  | _ => []

variable {root node : Node} {place directories : List String} {name : String} {file : Address}
  {entries : List (String × Node)}

theorem addressesAmong_eq (root : Node) (place directories : List String)
    (entries : List (String × Node)) :
    addressesAmong root place directories entries
      = entries.flatMap fun entry => addressesAt root place directories entry.1 entry.2 := by
  induction entries with
  | nil => rw [addressesAmong, List.flatMap_nil]
  | cons entry rest ih => rw [addressesAmong, ih, List.flatMap_cons]

theorem isPrefix_of_mem_addressesAt (hnode : node.ProperlyNamed)
    (h : file ∈ addressesAt root place directories name node) :
    directories ++ [name] <+: file.names := by
  induction hnode generalizing directories name with
  | file content =>
    rw [addressesAt, List.mem_singleton] at h
    subst h
    exact List.prefix_rfl
  | link target =>
    rw [addressesAt] at h
    split at h
    · exact absurd h List.not_mem_nil
    · rw [List.mem_singleton] at h
      subst h
      exact List.prefix_rfl
  | directory _ _ _ ih =>
    rw [addressesAt, addressesAmong_eq, List.mem_flatMap] at h
    obtain ⟨entry, hentry, h⟩ := h
    exact (List.prefix_append _ _).trans (ih entry hentry h)

theorem isPrefix_of_mem_addressesAmong (hnodes : ∀ entry ∈ entries, entry.2.ProperlyNamed)
    (h : file ∈ addressesAmong root place directories entries) :
    directories <+: file.directories := by
  rw [addressesAmong_eq, List.mem_flatMap] at h
  obtain ⟨entry, hentry, h⟩ := h
  have hstarts := isPrefix_of_mem_addressesAt (hnodes entry hentry) h
  have hlength : (directories ++ [entry.1]).length ≤ file.names.length := hstarts.length_le
  simp only [Address.names, List.length_append, List.length_singleton] at hlength
  exact List.prefix_of_prefix_length_le ((List.prefix_append _ _).trans hstarts)
    (List.prefix_append _ _) (by omega)

/-- No file is listed twice. -/
theorem nodup_addressesAmong (hdistinct : (Assoc.keys entries).Nodup)
    (hnodes : ∀ entry ∈ entries, entry.2.ProperlyNamed)
    (hnodup : ∀ entry ∈ entries, (addressesAt root place directories entry.1 entry.2).Nodup) :
    (addressesAmong root place directories entries).Nodup := by
  rw [addressesAmong_eq, List.nodup_flatMap]
  refine ⟨hnodup, (List.pairwise_map.1 hdistinct).imp_of_mem fun {a b} ha hb hne => ?_⟩
  intro file hfile hother
  have hfirst := isPrefix_of_mem_addressesAt (hnodes a ha) hfile
  have hsecond := isPrefix_of_mem_addressesAt (hnodes b hb) hother
  have hsame := (List.prefix_of_prefix_length_le hfirst hsecond (by simp)).eq_of_length (by simp)
  exact hne (List.singleton_inj.1 (List.append_cancel_left hsame))

theorem nodup_addressesAt (hnode : node.ProperlyNamed) :
    (addressesAt root place directories name node).Nodup := by
  induction hnode generalizing directories name with
  | file content =>
    rw [addressesAt]
    exact List.nodup_singleton _
  | link target =>
    rw [addressesAt]
    split
    · exact List.nodup_nil
    · exact List.nodup_singleton _
  | directory _ hdistinct hnodes ih =>
    rw [addressesAt]
    exact nodup_addressesAmong hdistinct hnodes fun entry hentry => ih entry hentry

/-- Below what is no directory there is nothing. -/
theorem eq_nil_of_get? {found : Node} {names : List String} (hnode : node.isDirectory = false)
    (h : node.get? names = some found) : names = [] := by
  cases names with
  | nil => rfl
  | cons name rest =>
    cases node with
    | directory entries => exact nomatch hnode
    | file content => exact nomatch h
    | link target => exact nomatch h

/-- The only file at a node that is no directory is the node itself. -/
theorem eq_of_isPrefix (hnode : root.get? (place ++ directories ++ [name]) = some node)
    (hplain : node.isDirectory = false) (hstarts : directories ++ [name] <+: file.names)
    (hfile : root.holdsFileAt (place ++ file.names) = true) : file = ⟨directories, name⟩ := by
  obtain ⟨more, hmore⟩ := hstarts
  obtain ⟨found, hfound⟩ := exists_of_holdsFileAt hfile
  rw [← hmore, ← List.append_assoc, ← List.append_assoc, get?_append, hnode] at hfound
  obtain rfl := eq_nil_of_get? hplain hfound
  rw [List.append_nil] at hmore
  exact Address.names_injective hmore.symm

/-- The entries of a directory lead to the files below it, if each leads to those below it. -/
theorem mem_addressesAmong (hplace : root.get? (place ++ directories) = some (.directory entries))
    (hdistinct : (Assoc.keys entries).Nodup)
    (hmem : ∀ entry ∈ entries, root.get? (place ++ directories ++ [entry.1]) = some entry.2 →
      (file ∈ addressesAt root place directories entry.1 entry.2 ↔
        directories ++ [entry.1] <+: file.names ∧ root.holdsFileAt (place ++ file.names) = true)) :
    file ∈ addressesAmong root place directories entries ↔
      directories <+: file.names ∧ root.holdsFileAt (place ++ file.names) = true := by
  have hentry : ∀ entry ∈ entries,
      root.get? (place ++ directories ++ [entry.1]) = some entry.2 := by
    intro entry hentry
    rw [get?_entry hplace]
    exact (Assoc.get?_eq_some_iff hdistinct _ _).2 hentry
  rw [addressesAmong_eq, List.mem_flatMap]
  constructor
  · rintro ⟨entry, hin, h⟩
    obtain ⟨hstarts, hfile⟩ := (hmem entry hin (hentry entry hin)).1 h
    exact ⟨(List.prefix_append _ _).trans hstarts, hfile⟩
  · rintro ⟨⟨more, hmore⟩, hfile⟩
    obtain ⟨found, hfound⟩ := exists_of_holdsFileAt hfile
    -- The directory is no file, so a file below it has one of its entries on the way.
    cases more with
    | nil =>
      rw [List.append_nil] at hmore
      simp [holdsFileAt, ← hmore, hplace] at hfile
    | cons next rest =>
      rw [← hmore, ← List.append_assoc, get?_append, hplace, Option.bind_some, Node.get?] at hfound
      split at hfound
      · next child hchild =>
        have hin := Assoc.mem_of_get? hchild
        refine ⟨(next, child), hin, (hmem _ hin (hentry _ hin)).2 ⟨⟨rest, ?_⟩, hfile⟩⟩
        rw [List.append_assoc, List.singleton_append, hmore]
      · cases hfound

theorem mem_addressesAt (hproper : node.ProperlyNamed)
    (hnode : root.get? (place ++ directories ++ [name]) = some node) :
    file ∈ addressesAt root place directories name node ↔
      directories ++ [name] <+: file.names ∧ root.holdsFileAt (place ++ file.names) = true := by
  induction hproper generalizing directories name with
  | file content =>
    rw [addressesAt, List.mem_singleton]
    constructor
    · rintro rfl
      rw [Address.names, holdsFileAt, ← List.append_assoc, hnode]
      exact ⟨List.prefix_rfl, rfl⟩
    · rintro ⟨hstarts, hfile⟩
      exact eq_of_isPrefix hnode rfl hstarts hfile
  | link target =>
    rw [addressesAt]
    constructor
    · intro h
      split at h
      · exact absurd h List.not_mem_nil
      · next hdirectory =>
        obtain rfl := List.mem_singleton.1 h
        rw [Address.names, holdsFileAt, ← List.append_assoc, hnode]
        exact ⟨List.prefix_rfl, by simpa using hdirectory⟩
    · rintro ⟨hstarts, hfile⟩
      obtain rfl := eq_of_isPrefix hnode rfl hstarts hfile
      rw [Address.names, holdsFileAt, ← List.append_assoc, hnode] at hfile
      rw [if_neg (by simpa using hfile)]
      exact List.mem_singleton_self _
  | directory _ hdistinct _ ih =>
    rw [List.append_assoc] at hnode
    rw [addressesAt]
    exact mem_addressesAmong hnode hdistinct fun entry hentry => ih entry hentry

theorem addresses_of_directory (h : root.get? place = some (.directory entries)) :
    root.addresses place = addressesAmong root place [] entries := by
  rw [addresses, h]

theorem addresses_of_not_directory (h : ∀ entries, root.get? place ≠ some (.directory entries)) :
    root.addresses place = [] := by
  rw [addresses]
  split
  · next entries hplace => exact absurd hplace (h entries)
  · rfl

theorem nodup_addresses (hroot : root.ProperlyNamed) (place : List String) :
    (root.addresses place).Nodup := by
  rw [addresses]
  split
  · next entries hplace =>
    cases (hroot.get? hplace).1 with
    | directory _ hdistinct hnodes =>
      exact nodup_addressesAmong hdistinct hnodes fun entry hentry =>
        nodup_addressesAt (hnodes entry hentry)
  · exact List.nodup_nil

/-- **The files below a directory are listed, and nothing else.** -/
theorem mem_addresses (hroot : root.ProperlyNamed) :
    file ∈ root.addresses place ↔ root.holdsFileAt (place ++ file.names) = true := by
  rw [addresses]
  split
  · next entries hplace =>
    cases (hroot.get? hplace).1 with
    | directory _ hdistinct hnodes =>
      rw [← List.append_nil place] at hplace
      rw [mem_addressesAmong hplace hdistinct fun entry hentry =>
        mem_addressesAt (hnodes entry hentry)]
      simp
  · next hnone =>
    refine iff_of_false List.not_mem_nil fun hfile => ?_
    obtain ⟨found, hfound⟩ := exists_of_holdsFileAt hfile
    rw [get?_append] at hfound
    obtain ⟨inner, hinner, hfound⟩ := Option.bind_eq_some_iff.1 hfound
    have hplain : inner.isDirectory = false := by
      cases inner with
      | directory entries => exact absurd hinner (hnone entries)
      | file content => rfl
      | link target => rfl
    exact absurd (eq_nil_of_get? hplain hfound) (by simp [Address.names])

end Node

end ProjectReview
