import ProjectReview.Proofs.Encoding
import ProjectReview.Proofs.Reading
import ProjectReview.Proofs.Settings

set_option autoImplicit false

/-! # What loads forgive

A load of a configuration gives the entries of a JSON object, in their places: a setting whose value
is not of its type gets its default there, and those that are missing are put behind them with
theirs (`complete_eq_settled`). All else that can be at the path, from nothing at all to a document
that is not well formed, loads as the standard configuration.

There is one exception. An integer with too many digits is no error of the grammar, and a document
with one makes the load fail (`long_integer_is_not_forgiven`). The readers keep within what they are
given to read (`keepsWithin`), so such a document holds a long row of digits
(`hasLongInteger_of_read`). The main result, `load_tolerates_files`, says how every load ends. -/

namespace ProjectReview

namespace Json

/-! ## What is left to read -/

/-- There are more digits in a row than an integer may have. -/
def HasLongInteger (cs : List Char) : Prop :=
  ∃ digits, digits <:+: cs ∧ digitLimit < digits.length ∧ ∀ c ∈ digits, isDigit c = true

/-- How reading characters ends: what is left to read is an end of them, and if an integer is
    refused, a long one is among them. -/
def Within {α : Type} (cs : List Char) : Except Fault (α × Cursor) → Prop
  | .ok (_, next) => next.rest <:+ cs
  | .error (.number _) => HasLongInteger cs
  | .error (.malformed ..) => True

section Within

variable {α β : Type} {cs ds : List Char}

theorem Within.mono {read : Except Fault (α × Cursor)} (h : Within cs read) (hds : cs <:+ ds) :
    Within ds read := by
  match read, h with
  | .ok (_, _), hnext => exact hnext.trans hds
  | .error (.number _), ⟨digits, hinfix, hlong⟩ => exact ⟨digits, hinfix.trans hds.isInfix, hlong⟩
  | .error (.malformed ..), _ => trivial

theorem Within.map {read : Except Fault (α × Cursor)} (h : Within cs read) (f : α → β) :
    Within cs (read.map fun (a, next) => (f a, next)) := by
  match read, h with
  | .ok (_, _), hnext => exact hnext
  | .error (.number _), hlong => exact hlong
  | .error (.malformed ..), _ => trivial

theorem Within.error {fault : Fault} (h : Within cs (.error fault : Except Fault (α × Cursor))) :
    Within cs (.error fault : Except Fault (β × Cursor)) := by
  cases fault <;> exact h

end Within

theorem suffix_skipSpace (position : Nat) (cs : List Char) :
    (skipSpace position cs).rest <:+ cs := by
  induction cs generalizing position with
  | nil => exact List.suffix_rfl
  | cons c rest ih =>
    rw [skipSpace]
    split
    · exact (ih (position + 1)).trans (List.suffix_cons c rest)
    · exact List.suffix_rfl

theorem suffix_of_skipSpace {position : Nat} {cs after : List Char} {c : Char}
    (h : (skipSpace position cs).rest = c :: after) : after <:+ cs := by
  have hskip := suffix_skipSpace position cs
  rw [h] at hskip
  exact (List.suffix_cons c after).trans hskip

/-- A text is refused for what breaks the grammar. -/
theorem malformed_of_escapeAt {start position : Nat} {cs : List Char} {fault : Fault}
    (h : escapeAt start position cs = .error fault) :
    ∃ problem place, fault = .malformed problem place := by
  rw [escapeAt.eq_def] at h
  split at h
  · exact ⟨_, _, (Except.error.inj h).symm⟩
  · split at h
    · exact ⟨_, _, (Except.error.inj h).symm⟩
    · split at h
      · exact ⟨_, _, (Except.error.inj h).symm⟩
      · rw [unitEscape] at h
        split at h
        · split at h
          · exact ⟨_, _, (Except.error.inj h).symm⟩
          · split at h <;> cases h
        · split at h <;> cases h
  · split at h
    · cases h
    · exact ⟨_, _, (Except.error.inj h).symm⟩

theorem within_textAt (start position skip : Nat) (cs : List Char) :
    Within cs (textAt start position skip cs) := by
  fun_induction textAt start position skip cs with
  | case1 => trivial
  | case2 position skip c rest ih => exact ih.mono (List.suffix_cons c rest)
  | case3 position rest => exact List.suffix_cons _ rest
  | case4 position rest fault hescape _ =>
    obtain ⟨problem, place, rfl⟩ := malformed_of_escapeAt hescape
    trivial
  | case5 position rest _ e size _ ih => exact (ih.mono (List.suffix_cons _ rest)).map _
  | case6 => trivial
  | case7 position c rest _ _ _ ih => exact (ih.mono (List.suffix_cons c rest)).map _

/-! ## Words and numerals -/

theorem suffix_minusOf (cs : List Char) : (minusOf cs).2 <:+ cs := by
  rw [minusOf.eq_def]
  split
  · exact List.suffix_cons _ _
  · exact List.suffix_rfl

theorem suffix_signOf (cs : List Char) : (signOf cs).2 <:+ cs := by
  rw [signOf.eq_def]
  split
  · exact List.suffix_cons _ _
  · exact List.suffix_cons _ _
  · exact List.suffix_rfl

theorem prefix_wholeOf (cs : List Char) : wholeOf cs <+: cs := by
  rw [wholeOf.eq_def]
  split
  · exact ⟨_, rfl⟩
  · exact List.takeWhile_prefix _

theorem suffix_fractionOf (cs : List Char) : (fractionOf cs).2 <:+ cs := by
  rw [fractionOf.eq_def]
  split
  · next rest =>
    split
    · exact List.suffix_rfl
    · exact (List.dropWhile_suffix _).trans (List.suffix_cons _ rest)
  · exact List.suffix_rfl

theorem suffix_exponentOf (cs : List Char) : (exponentOf cs).2 <:+ cs := by
  rw [exponentOf.eq_def]
  split
  · exact List.suffix_rfl
  · next mark rest =>
    split
    · dsimp only
      split
      · exact List.suffix_rfl
      · exact ((List.dropWhile_suffix _).trans (suffix_signOf rest)).trans
          (List.suffix_cons mark rest)
    · exact List.suffix_rfl

theorem within_numeralAt (cursor : Cursor) : Within cursor.rest (numeralAt cursor) := by
  have hbody := suffix_minusOf cursor.rest
  rw [numeralAt]
  dsimp only
  generalize (minusOf cursor.rest).1 = negative
  generalize (minusOf cursor.rest).2 = body at hbody ⊢
  split
  · trivial
  · -- What is left is what the whole part, the fraction and the exponent leave, one by one.
    have hfraction := suffix_fractionOf (body.drop (wholeOf body).length)
    generalize fractionOf (body.drop (wholeOf body).length) = fraction at hfraction ⊢
    have hexponent := suffix_exponentOf fraction.2
    generalize exponentOf fraction.2 = exponent at hexponent ⊢
    have hrest := ((hexponent.trans hfraction).trans (List.drop_suffix _ body)).trans hbody
    rw [numeral.eq_def]
    split
    · split
      · next hlong =>
        exact ⟨wholeOf body, (prefix_wholeOf body).isInfix.trans hbody.isInfix, hlong,
          fun c => isDigit_of_mem_wholeOf⟩
      · exact hrest
    · exact hrest

theorem within_scalarAt (cursor : Cursor) : Within cursor.rest (scalarAt cursor) := by
  rw [scalarAt]
  split
  · exact List.drop_suffix _ _
  · exact within_numeralAt cursor

/-! ## Values -/

/-- The reader keeps within what it is given to read. -/
def KeepsWithin (reader : Cursor → Except Fault (Value × Cursor)) : Prop :=
  ∀ cursor, Within cursor.rest (reader cursor)

theorem KeepsWithin.skipSpace {reader : Cursor → Except Fault (Value × Cursor)}
    (h : KeepsWithin reader) (position : Nat) (c : Char) (cs : List Char) :
    Within (c :: cs) (reader (skipSpace position cs)) :=
  (h _).mono ((suffix_skipSpace position cs).trans (List.suffix_cons c cs))

theorem keepsWithin_valueAt {fuel : Nat} (hmembers : KeepsWithin (membersAt fuel []))
    (hitems : KeepsWithin (itemsAt fuel)) : KeepsWithin (valueAt (fuel + 1)) := by
  intro cursor
  rw [valueAt]
  split
  · next rest hrest =>
    rw [hrest]
    exact ((within_textAt _ _ 0 rest).mono (List.suffix_cons _ rest)).map
      fun cs => Value.text (String.ofList cs)
  · next rest hrest =>
    rw [hrest]
    dsimp only
    split
    · next after hnext => exact (suffix_of_skipSpace hnext).trans (List.suffix_cons _ rest)
    · exact hmembers.skipSpace _ _ rest
  · next rest hrest =>
    rw [hrest]
    dsimp only
    split
    · next after hnext => exact (suffix_of_skipSpace hnext).trans (List.suffix_cons _ rest)
    · exact hitems.skipSpace _ _ rest
  · exact within_scalarAt cursor

theorem keepsWithin_membersAt {fuel : Nat} (hvalue : KeepsWithin (valueAt fuel))
    (hmembers : ∀ seen, KeepsWithin (membersAt fuel seen)) (seen : Assoc Value) :
    KeepsWithin (membersAt (fuel + 1) seen) := by
  intro cursor
  rw [membersAt]
  split
  · next rest hrest =>
    rw [hrest]
    have hkey := (within_textAt cursor.position (cursor.position + 1) 0 rest).mono
      (List.suffix_cons '\x22' rest)
    split
    · next fault htext =>
      rw [htext] at hkey
      exact hkey.error
    · next key behindKey htext =>
      rw [htext] at hkey
      dsimp only
      split
      · next after hcolon =>
        have hafter := (suffix_of_skipSpace hcolon).trans hkey
        have hfound := (hvalue _).mono
          ((suffix_skipSpace (behindKey.skip.position + 1) after).trans hafter)
        split
        · next fault hread =>
          rw [hread] at hfound
          exact hfound
        · next value behindValue hread =>
          rw [hread] at hfound
          split
          · next last hlast => exact (suffix_of_skipSpace hlast).trans hfound
          · next more hmore =>
            exact (hmembers _ _).mono ((suffix_skipSpace _ more).trans
              ((suffix_of_skipSpace hmore).trans hfound))
          · trivial
      · trivial
  · trivial

theorem keepsWithin_itemsAt {fuel : Nat} (hvalue : KeepsWithin (valueAt fuel))
    (hitems : KeepsWithin (itemsAt fuel)) : KeepsWithin (itemsAt (fuel + 1)) := by
  intro cursor
  rw [itemsAt]
  have hfound := hvalue cursor
  split
  · next fault hread =>
    rw [hread] at hfound
    exact hfound
  · next value behind hread =>
    rw [hread] at hfound
    dsimp only
    split
    · next last hlast => exact (suffix_of_skipSpace hlast).trans hfound
    · next more hmore =>
      have hrest := (hitems (skipSpace (behind.skip.position + 1) more)).mono
        ((suffix_skipSpace _ more).trans ((suffix_of_skipSpace hmore).trans hfound))
      split
      · next items last hitemsRead =>
        rw [hitemsRead] at hrest
        exact hrest
      · exact hrest
    · trivial

/-- The three readers, by induction on their fuel. -/
theorem keepsWithin (fuel : Nat) :
    KeepsWithin (valueAt fuel) ∧ (∀ seen, KeepsWithin (membersAt fuel seen)) ∧
      KeepsWithin (itemsAt fuel) := by
  induction fuel with
  | zero =>
    refine ⟨fun cursor => ?_, fun seen cursor => ?_, fun cursor => ?_⟩
    · rw [valueAt]
      trivial
    · rw [membersAt]
      trivial
    · rw [itemsAt]
      trivial
  | succ fuel ih =>
    obtain ⟨hvalue, hmembers, hitems⟩ := ih
    exact ⟨keepsWithin_valueAt (hmembers []) hitems, keepsWithin_membersAt hvalue hmembers,
      keepsWithin_itemsAt hvalue hitems⟩

/-- **An integer is refused only if there are more digits in a row than it may have.** -/
theorem hasLongInteger_of_read {document : String} {fault : IntegerFault}
    (h : read document = .error (.number fault)) : HasLongInteger document.toList := by
  rw [read] at h
  dsimp only at h
  split at h
  · cases h
  · split at h
    · next refusal hvalue =>
      obtain rfl : refusal = .number fault := Except.error.inj h
      have hwithin := (keepsWithin (2 * document.toList.length + 2)).1
        (skipSpace 0 document.toList)
      rw [hvalue] at hwithin
      exact hwithin.mono (suffix_skipSpace 0 document.toList)
    · split at h <;> cases h

/-- A document that is one long row of digits is refused. -/
theorem read_ones {n : Nat} (h : digitLimit < n) :
    read (String.ofList (List.replicate n '1')) = .error (.number (.tooLong n)) := by
  obtain ⟨m, rfl⟩ : ∃ m, n = m + 1 := ⟨n - 1, by omega⟩
  have hwhole : wholeOf ('1' :: List.replicate m '1') = '1' :: List.replicate m '1' := by
    refine List.takeWhile_eq_self_iff.2 fun c hc => ?_
    rw [← List.replicate_succ] at hc
    rw [List.eq_of_mem_replicate hc]
    rfl
  have hnumeral : numeralAt ⟨0, '1' :: List.replicate m '1'⟩
      = .error (.number (.tooLong (m + 1))) := by
    rw [numeralAt, minusOf]
    · simp [hwhole, fractionOf, exponentOf, numeral, h, Except.map]
    · simp
  have hscalar : scalarAt ⟨0, '1' :: List.replicate m '1'⟩
      = .error (.number (.tooLong (m + 1))) := by
    have hword : (keywords.find? fun keyword =>
        keyword.1.isPrefixOf ('1' :: List.replicate m '1')) = none := by
      simp [keywords]
    rw [scalarAt, hword]
    exact hnumeral
  rw [read, String.toList_ofList, List.replicate_succ]
  simp only
  rw [skipSpace_cons rfl, valueAt_scalar _ _ (by decide) (by decide) (by decide), hscalar]
  rfl

end Json

/-! ## Completed entries -/

/-- A map with distinct keys is known by their order and by what it finds. -/
theorem Assoc.eq_of_keys_eq {α : Type} {a b : Assoc α} (hkeys : a.keys = b.keys)
    (hnodup : b.keys.Nodup) (hget : ∀ key ∈ b.keys, a.get? key = b.get? key) : a = b := by
  induction a generalizing b with
  | nil => exact (List.map_eq_nil_iff.1 hkeys.symm).symm
  | cons entry rest ih =>
    obtain ⟨k, v⟩ := entry
    cases b with
    | nil => cases hkeys
    | cons other more =>
      obtain ⟨k', v'⟩ := other
      obtain ⟨rfl, hrest⟩ := List.cons.inj hkeys
      obtain ⟨hnot, hmore⟩ := List.nodup_cons.1 hnodup
      have hvalue : v = v' := by simpa [get?] using hget k List.mem_cons_self
      have hsame : rest = more := by
        refine ih hrest hmore fun key hkey => ?_
        have hne : k ≠ key := fun h => hnot (h ▸ hkey)
        simpa [get?, hne] using hget key (List.mem_cons_of_mem _ hkey)
      rw [hvalue, hsame]

/-- The value of a setting, given what an entry for it says: a value that is not of its type does
    not count. -/
def Setting.settled (setting : Setting) (value : Value) : Value :=
  if setting.type.admits value then value else setting.default

namespace Config

variable {config : Config} {key : String} {setting : Setting}

/-- An entry with the value that is kept of it. -/
def settle (entry : String × Value) : String × Value :=
  (entry.1, ((setting? entry.1).map fun setting => setting.settled entry.2).getD entry.2)

/-- The settings that entries leave out, with their defaults. -/
def leftOut (entries : Config) : Config :=
  (settings.filter fun setting => setting.key ∉ entries.keys).map fun setting =>
    (setting.key, setting.default)

theorem get?_completeOne (config : Config) (setting : Setting) :
    (config.completeOne setting).get? setting.key
      = some (((config.get? setting.key).map setting.settled).getD setting.default) := by
  rw [completeOne]
  cases hvalue : config.get? setting.key with
  | none => simp [Assoc.get?_set]
  | some value =>
    by_cases hadmits : setting.type.admits value = true
    · simp [hadmits, hvalue, Setting.settled]
    · simp [hadmits, Assoc.get?_set, Setting.settled]

theorem get?_foldl_completeOne_of_mem {chosen : List Setting}
    (hnodup : (chosen.map Setting.key).Nodup) (hmem : setting ∈ chosen) (config : Config) :
    (chosen.foldl completeOne config).get? setting.key
      = some (((config.get? setting.key).map setting.settled).getD setting.default) := by
  induction chosen generalizing config with
  | nil => cases hmem
  | cons first rest ih =>
    obtain ⟨hnot, hrest⟩ := List.nodup_cons.1 hnodup
    rw [List.foldl_cons]
    rcases List.mem_cons.1 hmem with rfl | hmem
    · rw [get?_foldl_completeOne rest _ hnot, get?_completeOne]
    · have hne : first.key ≠ setting.key := fun h => hnot (h ▸ List.mem_map_of_mem hmem)
      rw [ih hrest hmem, get?_completeOne_of_ne hne]

theorem keys_completeOne (config : Config) (setting : Setting) :
    (config.completeOne setting).keys
      = if setting.key ∈ config.keys then config.keys else config.keys ++ [setting.key] := by
  rw [completeOne]
  split
  · next hany =>
    obtain ⟨value, hvalue, -⟩ := (Option.any_eq_true _ _).1 hany
    rw [if_pos ((Assoc.mem_keys_iff config setting.key).2 ⟨value, hvalue⟩)]
  · exact Assoc.keys_set config setting.key setting.default

/-- The keys that are missing come last, in the order of the settings. -/
theorem keys_foldl_completeOne {chosen : List Setting} (hnodup : (chosen.map Setting.key).Nodup)
    (config : Config) :
    (chosen.foldl completeOne config).keys
      = config.keys
        ++ (chosen.filter fun setting => setting.key ∉ config.keys).map Setting.key := by
  induction chosen generalizing config with
  | nil => simp
  | cons first rest ih =>
    obtain ⟨hnot, hrest⟩ := List.nodup_cons.1 hnodup
    rw [List.foldl_cons, ih hrest, keys_completeOne]
    split
    · next hmem => rw [List.filter_cons_of_neg (by simpa using hmem)]
    · next hmem =>
      -- No other setting has the key that is new.
      have hsame : (rest.filter fun setting => setting.key ∉ config.keys ++ [first.key])
          = rest.filter fun setting => setting.key ∉ config.keys := by
        refine List.filter_congr fun setting hsetting => ?_
        have hne : setting.key ≠ first.key := fun h => hnot (h ▸ List.mem_map_of_mem hsetting)
        simp [hne]
      rw [List.filter_cons_of_pos (by simpa using hmem), List.map_cons, List.append_assoc, hsame,
        List.singleton_append]

theorem get?_map_settle (entries : Config) (key : String) :
    Assoc.get? (entries.map settle) key
      = (entries.get? key).map fun value => (settle (key, value)).2 := by
  induction entries with
  | nil => rfl
  | cons entry rest ih =>
    obtain ⟨k, v⟩ := entry
    by_cases hk : k = key
    · simp [Assoc.get?, settle, hk]
    · simpa [Assoc.get?, settle, hk] using ih

theorem get?_leftOut (entries : Config) (key : String) :
    (leftOut entries).get? key
      = if key ∈ entries.keys then none else (setting? key).map Setting.default := by
  rw [leftOut, setting?]
  induction settings with
  | nil => simp [Assoc.get?]
  | cons first rest ih =>
    by_cases hfirst : first.key ∈ entries.keys
    · rw [List.filter_cons_of_neg (by simpa using hfirst), ih]
      by_cases hkey : first.key = key
      · rw [← hkey, if_pos hfirst, if_pos hfirst]
      · rw [List.find?_cons_of_neg (by simpa using hkey)]
    · rw [List.filter_cons_of_pos (by simpa using hfirst), List.map_cons]
      by_cases hkey : first.key = key
      · rw [List.find?_cons_of_pos (by simpa using hkey), ← hkey, if_neg hfirst]
        simp [Assoc.get?]
      · rw [List.find?_cons_of_neg (by simpa using hkey), ← ih]
        simp [Assoc.get?, hkey]

/-- **What the entries of a document are completed to.** Each stays in its place, and those that are
    missing are put behind them. -/
theorem complete_eq_settled {entries : Config} (hdistinct : entries.keys.Nodup) :
    complete entries = entries.map settle ++ leftOut entries := by
  have hkeys : (complete entries).keys = Assoc.keys (entries.map settle ++ leftOut entries) := by
    rw [complete_eq, keys_foldl_completeOne nodup_settings]
    simp [Assoc.keys, leftOut, settle, Function.comp_def]
  have hnodup : (complete entries).keys.Nodup := by
    rw [complete_eq, keys_foldl_completeOne nodup_settings]
    refine hdistinct.append (nodup_settings.sublist (List.filter_sublist.map _)) ?_
    intro key hkey hmissing
    obtain ⟨setting, hsetting, rfl⟩ := List.mem_map.1 hmissing
    exact of_decide_eq_true (List.mem_filter.1 hsetting).2 hkey
  -- Both sides have the same keys in the same order, so it is enough to compare what they find.
  refine Assoc.eq_of_keys_eq hkeys (hkeys ▸ hnodup) fun key _ => ?_
  rw [complete_eq, Assoc.get?_append, get?_map_settle, get?_leftOut]
  cases hsetting : setting? key with
  | none =>
    have hnot : key ∉ settings.map Setting.key := by
      simpa [setting?] using hsetting
    rw [get?_foldl_completeOne settings entries hnot]
    simp [settle, hsetting]
  | some setting =>
    obtain ⟨hmem, rfl⟩ := mem_of_setting? hsetting
    rw [get?_foldl_completeOne_of_mem nodup_settings hmem]
    cases hvalue : entries.get? setting.key with
    | none =>
      have hnot := (Assoc.get?_eq_none_iff entries setting.key).1 hvalue
      simp [hnot]
    | some value => simp [settle, hsetting]

theorem complete_nil : complete [] = standard := rfl

/-! ## Loads -/

/-- How a load ends, given what is read at its path: with the completed entries of a JSON object,
    with a fault if an integer is too long, and with the standard configuration in all other
    cases. -/
inductive LoadEnds (content : Except Fault String) : Except Fault Config → Prop
  | object {document : String} {fields : Config} (holds : content = .ok document)
      (read : Json.read document = .ok (.table fields)) :
      LoadEnds content (.ok (fields.map settle ++ leftOut fields))
  | tooLong {document : String} {fault : IntegerFault} (holds : content = .ok document)
      (read : Json.read document = .error (.number fault))
      (long : Json.HasLongInteger document.toList) :
      LoadEnds content (.error (.json document (.number fault)))
  | other (other : ∀ document, content = .ok document →
        (∀ fields, Json.read document ≠ .ok (.table fields)) ∧
          ∀ fault, Json.read document ≠ .error (.number fault)) :
      LoadEnds content (.ok standard)

/-- What is not there cannot be read. -/
theorem readTextAt_of_not_existsAt {root : Node} {parts : List String}
    (h : root.existsAt parts = false) (path : Path) {document : String} :
    root.readTextAt parts path ≠ .ok document := by
  rw [Node.readTextAt, Node.bytesAt]
  rw [Node.existsAt] at h
  split at h
  · cases h
  · next problem hreach =>
    rw [hreach]
    exact nofun

/-- Entries that count as none are completed to the standard configuration. -/
theorem loadEnds_of_empty {content : Except Fault String}
    (h : ∀ document, content = .ok document →
      (∀ fields, Json.read document ≠ .ok (.table fields)) ∧
        ∀ fault, Json.read document ≠ .error (.number fault)) :
    LoadEnds content (.ok (complete [])) := by
  rw [complete_nil]
  exact .other h

theorem loadEnds_ofDocument (name document : String) :
    LoadEnds (.ok document) ((ofDocument name document).outcome.map complete) := by
  rw [ofDocument]
  split
  · next value hread =>
    by_cases htable : ∃ fields, value = .table fields
    · obtain ⟨fields, rfl⟩ := htable
      cases Json.readable_of_read hread with
      | table hdistinct _ =>
        show LoadEnds (.ok document) (.ok (complete fields))
        rw [complete_eq_settled hdistinct]
        exact .object rfl hread
    · have hentries : entriesOf value = [] := by
        cases value <;> first | rfl | exact absurd ⟨_, rfl⟩ htable
      show LoadEnds (.ok document) (.ok (complete (entriesOf value)))
      rw [hentries]
      refine loadEnds_of_empty fun other hother => ?_
      obtain rfl := Except.ok.inj hother
      rw [hread]
      exact ⟨fun fields hsame => htable ⟨fields, Except.ok.inj hsame⟩, nofun⟩
  · next fault hread => exact .tooLong rfl hread (Json.hasLongInteger_of_read hread)
  · next fault hnumber hread =>
    show LoadEnds (.ok document) (.ok (complete []))
    refine loadEnds_of_empty fun other hother => ?_
    obtain rfl := Except.ok.inj hother
    rw [hread]
    exact ⟨nofun, fun number hsame => hnumber number (Except.error.inj hsame)⟩

/-- **How every load ends.** -/
theorem load_ends (root : Node) (directory : List String) (path : Path) :
    LoadEnds (root.readTextAt (path.fromRoot directory) path)
      (load root directory path).outcome := by
  rw [load]
  by_cases hexists : root.existsAt (path.fromRoot directory) = true
  · rw [if_pos hexists]
    cases hcontent : root.readTextAt (path.fromRoot directory) path with
    | error fault =>
      show LoadEnds _ (.ok (complete []))
      refine loadEnds_of_empty fun document hdocument => ?_
      cases hdocument
    | ok document =>
      simp only
      rw [Journaled.outcome_bind]
      exact loadEnds_ofDocument path.text document
  · rw [if_neg hexists]
    show LoadEnds _ (.ok (complete []))
    refine loadEnds_of_empty fun document hcontent => ?_
    exact absurd hcontent (readTextAt_of_not_existsAt (Bool.eq_false_iff.2 hexists) path)

/-- **A load forgives everything but an integer that is too long.** Whatever is at the path, a load
    ends with the entries of a JSON object, each in its place and settings completed, or with the
    standard configuration; only a document in which an integer is refused makes it fail. A text
    without a long row of digits is no such document. -/
theorem load_tolerates_files (root : Node) (directory : List String) (path : Path) :
    let content := root.readTextAt (path.fromRoot directory) path
    let loaded := (load root directory path).outcome
    LoadEnds content loaded ∧
    (Succeeds loaded ↔ ∀ document fault, content = .ok document →
      Json.read document ≠ .error (.number fault)) ∧
    ((∀ document, content = .ok document → ¬ Json.HasLongInteger document.toList) →
      Succeeds loaded) := by
  intro content loaded
  have hends : LoadEnds content loaded := load_ends root directory path
  have hsucceeds : Succeeds loaded ↔ ∀ document fault, content = .ok document →
      Json.read document ≠ .error (.number fault) := by
    generalize loaded = outcome at hends
    cases hends with
    | object holds hread =>
      refine iff_of_true (succeeds_ok _) fun document fault hcontent => ?_
      obtain rfl := Except.ok.inj (holds.symm.trans hcontent)
      rw [hread]
      exact nofun
    | tooLong holds hread =>
      exact iff_of_false (not_succeeds_error _) fun h => h _ _ holds hread
    | other hother =>
      exact iff_of_true (succeeds_ok _) fun document fault hcontent =>
        (hother document hcontent).2 fault
  refine ⟨hends, hsucceeds, fun hshort => hsucceeds.2 fun document fault hcontent hread => ?_⟩
  exact hshort document hcontent (Json.hasLongInteger_of_read hread)

/-- A load of a document in which an integer is refused. -/
theorem load_of_refused {document : String} {fault : IntegerFault} (hfeeds : '\r' ∉ document.toList)
    (hread : Json.read document = .error (.number fault)) :
    let files : Node := .directory [("config.json", .file (encodeUtf8 document))]
    let path := Path.ofText "config.json"
    files.readTextAt (path.fromRoot []) path = .ok document ∧
      (load files [] path).outcome = .error (.json document (.number fault)) := by
  intro files path
  have hbytes : files.bytesAt (path.fromRoot []) = .ok (encodeUtf8 document) := rfl
  have hcontent : files.readTextAt (path.fromRoot []) path = .ok document := by
    simp only [Node.readTextAt, hbytes, readText_encodeUtf8 hfeeds, Except.mapError]
  refine ⟨hcontent, ?_⟩
  have hends := load_ends files [] path
  rw [hcontent] at hends
  generalize (load files [] path).outcome = outcome at hends
  cases hends with
  | object holds hobject =>
    obtain rfl := Except.ok.inj holds
    rw [hread] at hobject
    cases hobject
  | tooLong holds hlong =>
    obtain rfl := Except.ok.inj holds
    rw [hread] at hlong
    obtain rfl := Json.Fault.number.inj (Except.error.inj hlong)
    rfl
  | other hother => exact absurd hread ((hother document rfl).2 _)

/-- **An integer that is too long is not forgiven.** A file with a row of 4301 digits can be read,
    and a load of it fails. -/
theorem long_integer_is_not_forgiven :
    let document := String.ofList (List.replicate 4301 '1')
    let files : Node := .directory [("config.json", .file (encodeUtf8 document))]
    let path := Path.ofText "config.json"
    files.readTextAt (path.fromRoot []) path = .ok document ∧
      (load files [] path).outcome = .error (.json document (.number (.tooLong 4301))) := by
  refine load_of_refused ?_ (Json.read_ones (by decide))
  rw [String.toList_ofList]
  exact fun h => absurd (List.eq_of_mem_replicate h) (by decide)

end Config

end ProjectReview
