import ProjectReview.Config.File
import ProjectReview.Proofs.Documents
import ProjectReview.Proofs.Encoding
import ProjectReview.Proofs.Settings
import ProjectReview.Proofs.Storing

set_option autoImplicit false

/-! # Saved configurations are loaded unchanged

The document of a configuration is plain ASCII without carriage returns, so its file is read as it
was written (`readText_document`) and gives the entries back in their order (`ofDocument_document`);
where all settings are there with values of their types, loading completes nothing. So the file is
loaded as the configuration that was saved, by every path that leads to it
(`Typed.load_of_document`). The main result, `load_of_save`, puts this behind a save. -/

namespace ProjectReview

/-- A list of texts is plain. -/
theorem Value.plain_texts (texts : List String) : Plain (.texts texts) := by
  refine .list fun item hitem => ?_
  obtain ⟨s, -, rfl⟩ := List.mem_map.1 hitem
  exact .text s

namespace Config

variable {config : Config} {root left : Node} {directory : List String} {path : Path}
  {target : List String} {entries : List (String × Node)}

theorem plain_standard : ∀ entry ∈ standard, entry.2.Plain := by
  simp only [standard, settings, List.map_cons, List.map_nil, List.forall_mem_cons]
  exact ⟨.list (by simp), Value.plain_texts _, Value.plain_texts _, Value.plain_texts _,
    .list (by simp), .list (by simp), .int (by decide), .int (by decide), .int (by decide), by simp⟩

theorem readText_document (hplain : Value.Plain (.table config)) :
    readText (encodeUtf8 config.document) = .ok config.document := by
  refine readText_encodeUtf8 ?_
  rw [document, Json.write, String.toList_append, String.toList_ofList, List.mem_append, not_or]
  refine ⟨fun hreturn => ?_, by decide⟩
  exact absurd (Json.isWritten_of_mem_writeAt hplain hreturn) (by decide)

theorem ofDocument_document (hplain : Value.Plain (.table config)) (name : String) :
    ofDocument name config.document = pure config := by
  rw [ofDocument, document, Json.read_write hplain]
  rfl

/-- **The file of a configuration is loaded as that configuration.** -/
theorem Typed.load_of_document (htyped : config.Typed) (hplain : Value.Plain (.table config))
    (hway : root.follow (path.fromRoot directory) = .ok target)
    (hfile : root.get? target = some (.file (encodeUtf8 config.document))) :
    load root directory path = pure config := by
  have hreach := Node.reach_eq_ok_iff.2 ⟨target, hway, hfile⟩
  have hexists : root.existsAt (path.fromRoot directory) = true := by rw [Node.existsAt, hreach]
  have hread : root.readTextAt (path.fromRoot directory) path = .ok config.document := by
    rw [Node.readTextAt, Node.bytesAt, hreach]
    exact congrArg (Except.mapError Fault.decode) (readText_document hplain)
  rw [load, if_pos hexists]
  simp only [hread, ofDocument_document hplain, pure_bind, htyped.complete_eq_self]

/-- **A saved configuration is loaded unchanged.** If every setting is there with a value of its
    type, and all values are plain, then a save that succeeds leaves a file that is loaded as the
    same configuration, with its keys in the same order at every level, by every path that leads to
    the file. The path of the save is one of them if it leads anywhere, and in any case if no link
    was replaced: a replaced link may have been on the way of the path itself. -/
theorem load_of_save (obstacles : Obstacles) (htyped : config.Typed)
    (hplain : Value.Plain (.table config))
    (hsave : config.save obstacles (.directory entries) directory path = (left, .ok ())) :
    ∃ target, left.get? target = some (.file (encodeUtf8 config.document)) ∧
      (∀ (start : List String) (other : Path), left.follow (other.fromRoot start) = .ok target →
        load left start other = pure config) ∧
      (left.existsAt (path.fromRoot directory) = true ∨
          (∀ link, (Node.directory entries).get? target ≠ some (.link link)) →
        load left directory path = pure config) := by
  obtain ⟨above, name, made, place, hparts, hmade, hstored⟩ := Node.safeWrite_eq_ok rfl hsave
  have hload {start : List String} {other : Path}
      (hway : left.follow (other.fromRoot start) = .ok (place ++ [name])) :
      load left start other = pure config :=
    htyped.load_of_document hplain hway hstored.get?_eq
  refine ⟨place ++ [name], hstored.get?_eq, fun _ _ => hload, ?_⟩
  rintro (hexists | hlink)
  · rw [hparts] at hexists
    exact hload (hparts ▸ hstored.follow_of_existsAt hexists)
  · refine hload (hparts ▸ hstored.follow_of_noLink fun target htarget => ?_)
    exact hlink target (Node.link_of_makeDirectories hmade htarget)

/-- A configuration with a key of its own, whose value has a text that needs escapes of every kind,
    is saved over a link and loaded unchanged. -/
theorem load_of_save_over_link :
    let extra := Value.list [.table [("\x00\"\\ é\n😀", .int (-12)), ("", .null)], .bool true,
      .table [], .list []]
    let config : Config := standard ++ [("notes", extra)]
    let files := [("etc", Node.directory [("c.json", .link "/gone")])]
    let path := Path.ofText "etc/c.json"
    ∃ left, config.save {} (.directory files) [] path = (left, .ok ()) ∧
      config.Typed ∧ Value.Plain (.table config) ∧ load left [] path = pure config := by
  intro extra config files path
  have htyped : config.Typed := by
    unfold Typed
    decide
  have hextra : extra.Plain := by
    refine .list (List.forall_mem_cons.2 ⟨.table (by decide) ?_, ?_⟩)
    · simp only [List.forall_mem_cons]
      exact ⟨.int (by decide), .null, by simp⟩
    · simp only [List.forall_mem_cons]
      exact ⟨.bool true, .table (by decide) (by simp), .list (by simp), by simp⟩
  have hplain : Value.Plain (.table config) := by
    refine .table (by decide) (List.forall_mem_append.2 ⟨plain_standard, ?_⟩)
    exact List.forall_mem_singleton.2 hextra
  have hsave : config.save {} (.directory files) [] path
      = (.directory [("etc", .directory [("c.json", .file (encodeUtf8 config.document))])],
          .ok ()) := rfl
  obtain ⟨_, -, -, hload⟩ := load_of_save {} htyped hplain hsave
  exact ⟨_, hsave, htyped, hplain, hload (.inl rfl)⟩

/-- The path of a save need not lead to what was saved: here the link that is replaced is on its
    way. -/
example :
    let files := [("d", Node.directory [("l", .link ".")])]
    let (left, outcome) := standard.save {} (.directory files) [] (Path.ofText "d/l/l")
    outcome = .ok () ∧ left.existsAt ["d", "l", "l"] = false :=
  ⟨rfl, rfl⟩

end Config

end ProjectReview
