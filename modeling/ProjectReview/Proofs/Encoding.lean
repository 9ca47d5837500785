import Mathlib.Tactic.SplitIfs
import ProjectReview.Text.Utf8

set_option autoImplicit false

/-! # Texts and their bytes

Bytes that are read as text are the bytes of that text: decoding accepts one spelling of every
character only, the one that encoding writes (`encodeChar_of_decodeFront`), so nothing is lost
(`encodeUtf8_of_decodeUtf8`). It does accept that one (`decodeFront_encodeChar`), so every text can
be read from its bytes (`decodeUtf8_encodeUtf8`). What reading a text file does change is its line
ends (`readText_eq_ok`), unless they are line feeds already (`readText_encodeUtf8`). -/

namespace ProjectReview

/-! ## Single characters -/

theorem isContinuation_iff (b : UInt8) :
    isContinuation b = true ↔ 0x80 ≤ b.toNat ∧ b.toNat < 0xc0 := by
  simp [isContinuation]

theorem mayFollow_iff (first second : UInt8) :
    mayFollow first second = true ↔ (0x80 ≤ second.toNat ∧ second.toNat < 0xc0) ∧
      (first.toNat = 0xe0 → 0xa0 ≤ second.toNat) ∧ (first.toNat = 0xed → second.toNat < 0xa0) ∧
      (first.toNat = 0xf0 → 0x90 ≤ second.toNat) ∧ (first.toNat = 0xf4 → second.toNat < 0x90) := by
  rw [mayFollow, Bool.and_eq_true, isContinuation_iff]
  refine and_congr_right fun _ => ?_
  split
  · next h => simp [h]
  · next h => simp [h]
  · next h => simp [h]
  · next h => simp [h]
  · next h₁ h₂ h₃ h₄ =>
    exact iff_of_true rfl ⟨fun h => (h₁ h).elim, fun h => (h₂ h).elim, fun h => (h₃ h).elim,
      fun h => (h₄ h).elim⟩

/-- The bytes that start sequences, by the length of the sequence. -/
theorem sequenceLength_bounds (b : UInt8) :
    (sequenceLength b = 1 → b.toNat < 0x80) ∧
      (sequenceLength b = 2 → 0xc2 ≤ b.toNat ∧ b.toNat < 0xe0) ∧
      (sequenceLength b = 3 → 0xe0 ≤ b.toNat ∧ b.toNat < 0xf0) ∧
      (sequenceLength b = 4 → 0xf0 ≤ b.toNat ∧ b.toNat < 0xf5) := by
  refine ⟨fun h => ?_, fun h => ?_, fun h => ?_, fun h => ?_⟩ <;>
    · rw [sequenceLength] at h
      split_ifs at h <;> omega

/-- A byte is given by its number. -/
theorem toUInt8_eq {n : Nat} {b : UInt8} (h : n = b.toNat) : n.toUInt8 = b := by
  rw [h]
  exact UInt8.ofNat_toNat

theorem toNat_ofNat_of_valid {n : Nat} (h : n < 0xd800 ∨ 0xdfff < n ∧ n < 0x110000) :
    (Char.ofNat n).toNat = n := by
  have hvalid : n.isValidChar := h
  rw [Char.ofNat, dif_pos hvalid]
  rfl

theorem encodeChar_one {a : UInt8} (h : a.toNat < 0x80) :
    encodeChar (Char.ofNat a.toNat) = [a] := by
  rw [encodeChar, toNat_ofNat_of_valid (by omega)]
  dsimp only
  rw [if_pos h, toUInt8_eq rfl]

theorem encodeChar_two {a b : UInt8} (ha : 0xc2 ≤ a.toNat ∧ a.toNat < 0xe0)
    (hb : mayFollow a b = true) :
    encodeChar (Char.ofNat (a.toNat % 32 * 64 + payload b)) = [a, b] := by
  rw [mayFollow_iff] at hb
  rw [payload, encodeChar, toNat_ofNat_of_valid (by omega)]
  dsimp only
  rw [if_neg (by omega), if_pos (by omega), toUInt8_eq (b := a) (by omega),
    toUInt8_eq (b := b) (by omega)]

theorem encodeChar_three {a b c : UInt8} (ha : 0xe0 ≤ a.toNat ∧ a.toNat < 0xf0)
    (hb : mayFollow a b = true) (hc : isContinuation c = true) :
    encodeChar (Char.ofNat ((a.toNat % 16 * 64 + payload b) * 64 + payload c)) = [a, b, c] := by
  rw [mayFollow_iff] at hb
  rw [isContinuation_iff] at hc
  rw [payload, payload, encodeChar, toNat_ofNat_of_valid (by omega)]
  dsimp only
  rw [if_neg (by omega), if_neg (by omega), if_pos (by omega), toUInt8_eq (b := a) (by omega),
    toUInt8_eq (b := b) (by omega), toUInt8_eq (b := c) (by omega)]

theorem encodeChar_four {a b c d : UInt8} (ha : 0xf0 ≤ a.toNat ∧ a.toNat < 0xf5)
    (hb : mayFollow a b = true) (hc : isContinuation c = true) (hd : isContinuation d = true) :
    encodeChar (Char.ofNat
      (((a.toNat % 8 * 64 + payload b) * 64 + payload c) * 64 + payload d)) = [a, b, c, d] := by
  rw [mayFollow_iff] at hb
  rw [isContinuation_iff] at hc hd
  rw [payload, payload, payload, encodeChar, toNat_ofNat_of_valid (by omega)]
  dsimp only
  rw [if_neg (by omega), if_neg (by omega), if_neg (by omega), toUInt8_eq (b := a) (by omega),
    toUInt8_eq (b := b) (by omega), toUInt8_eq (b := c) (by omega), toUInt8_eq (b := d) (by omega)]

/-- **A character that is decoded is encoded by the bytes it was decoded from.** -/
theorem encodeChar_of_decodeFront {start size : Nat} {first : UInt8} {rest : Bytes} {c : Char}
    (h : decodeFront start first rest = .ok (c, size)) :
    encodeChar c ++ rest.drop (size - 1) = first :: rest := by
  obtain ⟨hone, htwo, hthree, hfour⟩ := sequenceLength_bounds first
  -- A case for every length of a sequence; a byte that may not follow is a fault.
  unfold decodeFront at h
  dsimp only at h
  split at h
  · next hlength =>
    obtain ⟨rfl, rfl⟩ := Prod.mk.inj (Except.ok.inj h)
    rw [encodeChar_one (hone hlength)]
    rfl
  · next hlength =>
    split at h
    · cases h
    · next b rest =>
      split at h
      · next hb =>
        obtain ⟨rfl, rfl⟩ := Prod.mk.inj (Except.ok.inj h)
        rw [encodeChar_two (htwo hlength) hb]
        rfl
      · cases h
  · next hlength =>
    split at h
    · cases h
    · next b rest =>
      split at h
      · cases h
      · next hb =>
        split at h
        · cases h
        · next c rest =>
          split at h
          · next hc =>
            obtain ⟨rfl, rfl⟩ := Prod.mk.inj (Except.ok.inj h)
            rw [encodeChar_three (hthree hlength) (by simpa using hb) hc]
            rfl
          · cases h
  · next hlength =>
    split at h
    · cases h
    · next b rest =>
      split at h
      · cases h
      · next hb =>
        split at h
        · cases h
        · next c rest =>
          split at h
          · cases h
          · next hc =>
            split at h
            · cases h
            · next d rest =>
              split at h
              · next hd =>
                obtain ⟨rfl, rfl⟩ := Prod.mk.inj (Except.ok.inj h)
                rw [encodeChar_four (hfour hlength) (by simpa using hb) (by simpa using hc) hd]
                rfl
              · cases h
  · cases h

/-! ## Whole texts -/

/-- Decoding from a position on gives characters whose bytes are those that are left there. -/
theorem flatMap_encodeChar_of_decodeFrom {start skip : Nat} {bytes : Bytes} {cs : List Char}
    (h : decodeFrom start skip bytes = .ok cs) : cs.flatMap encodeChar = bytes.drop skip := by
  induction bytes generalizing start skip cs with
  | nil =>
    obtain rfl : [] = cs := by cases skip <;> exact Except.ok.inj h
    simp
  | cons first rest ih =>
    cases skip with
    | succ skip => exact ih h
    | zero =>
      rw [decodeFrom] at h
      split at h
      · cases h
      · next c size hfront =>
        split at h
        · cases h
        · next cs' hrest =>
          obtain rfl : c :: cs' = cs := Except.ok.inj h
          rw [List.flatMap_cons, ih hrest, encodeChar_of_decodeFront hfront]
          rfl

/-- **Bytes that are read as text are the bytes of that text.** -/
theorem encodeUtf8_of_decodeUtf8 {bytes : Bytes} {text : String}
    (h : decodeUtf8 bytes = .ok text) : encodeUtf8 text = bytes := by
  rw [decodeUtf8] at h
  cases hchars : decodeFrom 0 0 bytes with
  | error fault => rw [hchars] at h; cases h
  | ok cs =>
    rw [hchars] at h
    obtain rfl : String.ofList cs = text := Except.ok.inj h
    rw [encodeUtf8, String.toList_ofList]
    exact flatMap_encodeChar_of_decodeFrom hchars

/-! ## Decoding what is encoded -/

theorem toNat_toUInt8 {n : Nat} (h : n < 256) : n.toUInt8.toNat = n :=
  Nat.mod_eq_of_lt h

theorem decodeFront_one (start : Nat) {a : UInt8} (ha : a.toNat < 0x80) (rest : Bytes) :
    decodeFront start a rest = .ok (Char.ofNat a.toNat, 1) := by
  have hlength : sequenceLength a = 1 := if_pos ha
  simp only [decodeFront, hlength]

theorem decodeFront_two (start : Nat) {a b : UInt8} (ha : 0xc2 ≤ a.toNat ∧ a.toNat < 0xe0)
    (hb : mayFollow a b = true) (rest : Bytes) :
    decodeFront start a (b :: rest) = .ok (Char.ofNat (a.toNat % 32 * 64 + payload b), 2) := by
  have hlength : sequenceLength a = 2 := by
    rw [sequenceLength]
    split_ifs <;> omega
  simp only [decodeFront, hlength, hb, if_true]

theorem decodeFront_three (start : Nat) {a b c : UInt8} (ha : 0xe0 ≤ a.toNat ∧ a.toNat < 0xf0)
    (hb : mayFollow a b = true) (hc : isContinuation c = true) (rest : Bytes) :
    decodeFront start a (b :: c :: rest)
      = .ok (Char.ofNat ((a.toNat % 16 * 64 + payload b) * 64 + payload c), 3) := by
  have hlength : sequenceLength a = 3 := by
    rw [sequenceLength]
    split_ifs <;> omega
  simp only [decodeFront, hlength, hb, hc, Bool.not_true, Bool.false_eq_true, if_false, if_true]

theorem decodeFront_four (start : Nat) {a b c d : UInt8} (ha : 0xf0 ≤ a.toNat ∧ a.toNat < 0xf5)
    (hb : mayFollow a b = true) (hc : isContinuation c = true) (hd : isContinuation d = true)
    (rest : Bytes) :
    decodeFront start a (b :: c :: d :: rest)
      = .ok (Char.ofNat (((a.toNat % 8 * 64 + payload b) * 64 + payload c) * 64 + payload d),
          4) := by
  have hlength : sequenceLength a = 4 := by
    rw [sequenceLength]
    split_ifs <;> omega
  simp only [decodeFront, hlength, hb, hc, hd, Bool.not_true, Bool.false_eq_true, if_false, if_true]

/-- **The bytes that encode a character are decoded to it.** -/
theorem decodeFront_encodeChar (start : Nat) (c : Char) (rest : Bytes) :
    ∃ first more, encodeChar c = first :: more ∧
      decodeFront start first (more ++ rest) = .ok (c, more.length + 1) := by
  have hvalid : c.toNat < 0xd800 ∨ 0xdfff < c.toNat ∧ c.toNat < 0x110000 := c.valid
  have hchar : ∀ n, n = c.toNat → Char.ofNat n = c := by
    rintro n rfl
    exact Char.ofNat_toNat c
  rw [encodeChar]
  dsimp only
  generalize c.toNat = n at hvalid hchar
  -- A case for every length of a sequence.
  split_ifs with hone htwo hthree
  · have ha := toNat_toUInt8 (n := n) (by omega)
    refine ⟨_, _, rfl, ?_⟩
    rw [List.nil_append, decodeFront_one start (by omega), hchar _ ha]
    rfl
  · have ha := toNat_toUInt8 (n := 0xc0 + n / 64) (by omega)
    have hb := toNat_toUInt8 (n := 0x80 + n % 64) (by omega)
    refine ⟨_, _, rfl, ?_⟩
    rw [List.cons_append, List.nil_append,
      decodeFront_two start (by omega) ((mayFollow_iff _ _).2 (by omega)),
      hchar _ (by rw [payload]; omega)]
    rfl
  · have ha := toNat_toUInt8 (n := 0xe0 + n / 4096) (by omega)
    have hb := toNat_toUInt8 (n := 0x80 + n / 64 % 64) (by omega)
    have hc := toNat_toUInt8 (n := 0x80 + n % 64) (by omega)
    refine ⟨_, _, rfl, ?_⟩
    rw [List.cons_append, List.cons_append, List.nil_append,
      decodeFront_three start (by omega) ((mayFollow_iff _ _).2 (by omega))
        ((isContinuation_iff _).2 (by omega)),
      hchar _ (by rw [payload, payload]; omega)]
    rfl
  · have ha := toNat_toUInt8 (n := 0xf0 + n / 262144) (by omega)
    have hb := toNat_toUInt8 (n := 0x80 + n / 4096 % 64) (by omega)
    have hc := toNat_toUInt8 (n := 0x80 + n / 64 % 64) (by omega)
    have hd := toNat_toUInt8 (n := 0x80 + n % 64) (by omega)
    refine ⟨_, _, rfl, ?_⟩
    rw [List.cons_append, List.cons_append, List.cons_append, List.nil_append,
      decodeFront_four start (by omega) ((mayFollow_iff _ _).2 (by omega))
        ((isContinuation_iff _).2 (by omega)) ((isContinuation_iff _).2 (by omega)),
      hchar _ (by rw [payload, payload, payload]; omega)]
    rfl

/-- Bytes that a sequence covers are passed over. -/
theorem decodeFrom_covered (start : Nat) (covered rest : Bytes) :
    decodeFrom start covered.length (covered ++ rest)
      = decodeFrom (start + covered.length) 0 rest := by
  induction covered generalizing start with
  | nil => rfl
  | cons b more ih =>
    rw [List.length_cons, List.cons_append, decodeFrom, ih]
    congr 1
    omega

theorem decodeFrom_flatMap_encodeChar (start : Nat) (cs : List Char) :
    decodeFrom start 0 (cs.flatMap encodeChar) = .ok cs := by
  induction cs generalizing start with
  | nil => rfl
  | cons c rest ih =>
    obtain ⟨first, more, hencode, hdecode⟩ :=
      decodeFront_encodeChar start c (rest.flatMap encodeChar)
    rw [List.flatMap_cons, hencode, List.cons_append, decodeFrom, hdecode]
    simp only [Nat.add_sub_cancel, decodeFrom_covered, ih]

/-- **The bytes of a text are read as that text.** -/
theorem decodeUtf8_encodeUtf8 (text : String) : decodeUtf8 (encodeUtf8 text) = .ok text := by
  rw [decodeUtf8, encodeUtf8, decodeFrom_flatMap_encodeChar]
  exact congrArg Except.ok String.ofList_toList

/-! ## Line ends -/

/-- The text with every line end written as a line feed. -/
def withLineFeeds (text : String) : String :=
  String.ofList (unifyLineEnds text.toList)

/-- A file that can be read holds the bytes of a text, and what is read is that text with its line
    ends as line feeds. -/
theorem readText_eq_ok {bytes : Bytes} {read : String} (h : readText bytes = .ok read) :
    ∃ text, bytes = encodeUtf8 text ∧ read = withLineFeeds text := by
  rw [readText] at h
  cases hdecode : decodeUtf8 bytes with
  | error fault => rw [hdecode] at h; cases h
  | ok text =>
    rw [hdecode] at h
    exact ⟨text, (encodeUtf8_of_decodeUtf8 hdecode).symm, (Except.ok.inj h).symm⟩

theorem unifyLineEnds_eq_self {cs : List Char} (h : '\r' ∉ cs) : unifyLineEnds cs = cs := by
  induction cs with
  | nil => rfl
  | cons c rest ih =>
    rw [List.mem_cons, not_or] at h
    have hc : c ≠ '\r' := fun hsame => h.1 hsame.symm
    rw [unifyLineEnds]
    · rw [if_neg hc, ih h.2]
    · rintro more rfl _
      exact hc rfl

/-- A text without carriage returns is read as it is. -/
theorem withLineFeeds_eq_self {text : String} (h : '\r' ∉ text.toList) :
    withLineFeeds text = text := by
  rw [withLineFeeds, unifyLineEnds_eq_self h, String.ofList_toList]

/-- The file of a text without carriage returns is read as that text. -/
theorem readText_encodeUtf8 {text : String} (h : '\r' ∉ text.toList) :
    readText (encodeUtf8 text) = .ok text := by
  rw [readText, decodeUtf8_encodeUtf8]
  exact congrArg Except.ok (withLineFeeds_eq_self h)

end ProjectReview
