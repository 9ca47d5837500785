import Mathlib.Data.List.TakeWhile
import ProjectReview.Proofs.Documents
import ProjectReview.Proofs.Outcomes

set_option autoImplicit false

/-! # What documents are read as

Whatever a document holds, the value that it is read as is `Readable`: its integers are not too long
to be read again, and no table has a key twice (`readable_of_read`). Without fractional numbers such a
value is plain (`Readable.plain`), so it survives being written and read. An integer that is read
from a text by itself is not too long, either (`short_of_readInteger`). -/

namespace ProjectReview

namespace Value

/-- A value that documents can be read as: no dates, no integer with too many digits, and no table
    with a key twice. -/
inductive Readable : Value → Prop
  | null : Readable .null
  | bool (b : Bool) : Readable (.bool b)
  | int {n : Int} (short : (Nat.toDigits 10 n.natAbs).length ≤ digitLimit) : Readable (.int n)
  | float (x : Binary64) : Readable (.float x)
  | text (s : String) : Readable (.text s)
  | list {items : List Value} (readable : ∀ item ∈ items, Readable item) : Readable (.list items)
  | table {fields : List (String × Value)} (distinct : (Assoc.keys fields).Nodup)
      (readable : ∀ field ∈ fields, Readable field.2) : Readable (.table fields)

/-- There are no fractional numbers in the value. -/
inductive FloatFree : Value → Prop
  | null : FloatFree .null
  | bool (b : Bool) : FloatFree (.bool b)
  | int (n : Int) : FloatFree (.int n)
  | text (s : String) : FloatFree (.text s)
  | moment (s : String) : FloatFree (.moment s)
  | list {items : List Value} (free : ∀ item ∈ items, FloatFree item) : FloatFree (.list items)
  | table {fields : List (String × Value)} (free : ∀ field ∈ fields, FloatFree field.2) :
      FloatFree (.table fields)

/-- **Without fractional numbers, what is read from a document can be written and read again.** -/
theorem Readable.plain {value : Value} (h : value.Readable) (hfree : value.FloatFree) :
    value.Plain := by
  induction h with
  | null => exact .null
  | bool b => exact .bool b
  | int short => exact .int short
  | float x => cases hfree
  | text s => exact .text s
  | list _ ih =>
    cases hfree with
    | list free => exact .list fun item hitem => ih item hitem (free item hitem)
  | table distinct _ ih =>
    cases hfree with
    | table free => exact .table distinct fun field hfield => ih field hfield (free field hfield)

theorem Plain.readable {value : Value} (h : value.Plain) : value.Readable := by
  induction h with
  | null => exact .null
  | bool b => exact .bool b
  | int short => exact .int short
  | text s => exact .text s
  | list _ ih => exact .list ih
  | table distinct _ ih => exact .table distinct ih

theorem Plain.floatFree {value : Value} (h : value.Plain) : value.FloatFree := by
  induction h with
  | null => exact .null
  | bool b => exact .bool b
  | int _ => exact .int _
  | text s => exact .text s
  | list _ ih => exact .list ih
  | table _ _ ih => exact .table ih

end Value

theorem Assoc.forall_mem_set {α : Type} {map : Assoc α} {p : α → Prop}
    (h : ∀ entry ∈ map, p entry.2) (key : String) {value : α} (hvalue : p value) :
    ∀ entry ∈ map.set key value, p entry.2 := by
  induction map with
  | nil => simpa [set] using hvalue
  | cons entry rest ih =>
    rw [List.forall_mem_cons] at h
    rw [set]
    split
    · exact List.forall_mem_cons.2 ⟨hvalue, h.2⟩
    · exact List.forall_mem_cons.2 ⟨h.1, ih h.2⟩

/-- A table of readable values stays one when a key gets a readable value. -/
theorem Value.Readable.set {fields : Assoc Value} (h : Readable (.table fields)) (key : String)
    {value : Value} (hvalue : value.Readable) : Readable (.table (fields.set key value)) := by
  cases h with
  | table distinct readable =>
    exact .table (Assoc.nodup_keys_set distinct key value)
      (Assoc.forall_mem_set readable key hvalue)

/-- A plain table stays plain when a key gets a plain value. -/
theorem Value.Plain.set {fields : Assoc Value} (h : Plain (.table fields)) (key : String)
    {value : Value} (hvalue : value.Plain) : Plain (.table (fields.set key value)) := by
  cases h with
  | table distinct plain =>
    exact .table (Assoc.nodup_keys_set distinct key value) (Assoc.forall_mem_set plain key hvalue)

/-! ## Integers -/

theorem foldl_digits_lt {ds : List Nat} (h : ∀ d ∈ ds, d < 10) (n : Nat) :
    ds.foldl (fun n d => 10 * n + d) n < (n + 1) * 10 ^ ds.length := by
  induction ds generalizing n with
  | nil => simp
  | cons d rest ih =>
    rw [List.forall_mem_cons] at h
    calc (d :: rest).foldl (fun n d => 10 * n + d) n
        < (10 * n + d + 1) * 10 ^ rest.length := ih h.2 (10 * n + d)
      _ ≤ ((n + 1) * 10) * 10 ^ rest.length := Nat.mul_le_mul_right _ (by omega)
      _ = (n + 1) * 10 ^ (d :: rest).length := by
        rw [List.length_cons, Nat.pow_succ', Nat.mul_assoc]

/-- A number is written with no more digits than it is read from. -/
theorem length_toDigits_ofDigits {ds : List Nat} (h : ∀ d ∈ ds, d < 10)
    (hlength : ds.length ≤ digitLimit) :
    (Nat.toDigits 10 (ofDigits ds)).length ≤ digitLimit := by
  have hlt := foldl_digits_lt h 0
  rw [Nat.zero_add, Nat.one_mul] at hlt
  exact Nat.toDigits_length 10 _ digitLimit (by decide)
    (hlt.trans_le (Nat.pow_le_pow_right (by decide) hlength))

theorem lt_of_asciiDigit? {c : Char} {d : Nat} (h : asciiDigit? c = some d) : d < 10 := by
  rw [asciiDigit?] at h
  split at h
  · next hdigit =>
    rw [Bool.and_eq_true, decide_eq_true_eq, decide_eq_true_eq] at hdigit
    have hd := Option.some.inj h
    omega
  · cases h

theorem lt_of_digitRun {afterDigit : Bool} {cs after : List Char} {ds : List Nat}
    (h : digitRun afterDigit cs = some (ds, after)) : ∀ d ∈ ds, d < 10 := by
  induction cs generalizing afterDigit ds after with
  | nil =>
    rw [digitRun] at h
    split at h
    · obtain ⟨rfl, -⟩ := Prod.mk.inj (Option.some.inj h)
      simp
    · cases h
  | cons c rest ih =>
    rw [digitRun] at h
    split at h
    · next d hd =>
      obtain ⟨⟨more, after'⟩, hmore, hsame⟩ := Option.map_eq_some_iff.1 h
      obtain ⟨rfl, -⟩ := Prod.mk.inj hsame
      exact List.forall_mem_cons.2 ⟨lt_of_asciiDigit? hd, ih hmore⟩
    · split at h
      · split at h
        · exact ih h
        · cases h
      · split at h
        · obtain ⟨rfl, -⟩ := Prod.mk.inj (Option.some.inj h)
          simp
        · cases h

theorem natAbs_signed (negative : Bool) (n : Nat) :
    (if negative then -(n : Int) else n).natAbs = n := by
  cases negative <;> simp

/-- **An integer that is read from a text is not too long for a document.** -/
theorem short_of_readInteger {text : String} {n : Int} (h : readInteger text = .ok n) :
    (Nat.toDigits 10 n.natAbs).length ≤ digitLimit := by
  rw [readInteger] at h
  dsimp only at h
  split at h
  · cases h
  · next ds after hrun =>
    split at h
    · cases h
    · next hlength =>
      split at h
      · rw [← Except.ok.inj h, natAbs_signed]
        exact length_toDigits_ofDigits (lt_of_digitRun hrun) (Nat.not_lt.1 hlength)
      · cases h

namespace Json

/-! ## Words and numerals -/

theorem isDigit_of_mem_wholeOf {cs : List Char} {c : Char} (h : c ∈ wholeOf cs) :
    isDigit c = true := by
  rw [wholeOf.eq_def] at h
  split at h
  · obtain rfl := List.mem_singleton.1 h
    rfl
  · exact List.mem_takeWhile_imp h

theorem readable_of_numeral {negative : Bool} {whole fraction : List Char}
    {exponent : Option (Bool × List Char)} {value : Value}
    (hwhole : ∀ c ∈ whole, isDigit c = true)
    (h : numeral negative whole fraction exponent = .ok value) : value.Readable := by
  rw [numeral.eq_def] at h
  split at h
  · split at h
    · cases h
    · next hlength =>
      rw [← Except.ok.inj h]
      refine .int ?_
      rw [natAbs_signed]
      refine length_toDigits_ofDigits ?_ (by rwa [List.length_map, ← Nat.not_lt])
      intro d hd
      obtain ⟨c, hc, rfl⟩ := List.mem_map.1 hd
      have hdigit := hwhole c hc
      rw [isDigit, Bool.and_eq_true, decide_eq_true_eq, decide_eq_true_eq] at hdigit
      omega
  · rw [← Except.ok.inj h]
    exact .float _

theorem readable_of_keyword : ∀ keyword ∈ keywords, keyword.2.Readable := by
  simp only [keywords, List.forall_mem_cons]
  exact ⟨.null, .bool true, .bool false, .float _, .float _, .float _, by simp⟩

theorem readable_of_scalarAt {cursor next : Cursor} {value : Value}
    (h : scalarAt cursor = .ok (value, next)) : value.Readable := by
  rw [scalarAt] at h
  split at h
  · next word found hfind =>
    obtain ⟨rfl, -⟩ := Prod.mk.inj (Except.ok.inj h)
    exact readable_of_keyword _ (List.mem_of_find?_eq_some hfind)
  · rw [numeralAt] at h
    dsimp only at h
    split at h
    · cases h
    · obtain ⟨found, hnumeral, hsame⟩ := map_eq_ok.1 h
      obtain ⟨rfl, -⟩ := Prod.mk.inj hsame
      exact readable_of_numeral (fun c => isDigit_of_mem_wholeOf) hnumeral

/-! ## Values -/

/-- Whatever the reader gives, with any cursor, is readable. -/
def GivesReadable (reader : Cursor → Except Fault (Value × Cursor)) : Prop :=
  ∀ cursor value next, reader cursor = .ok (value, next) → value.Readable

theorem givesReadable_valueAt {fuel : Nat} (hmembers : GivesReadable (membersAt fuel []))
    (hitems : GivesReadable (itemsAt fuel)) : GivesReadable (valueAt (fuel + 1)) := by
  intro cursor value next h
  rw [valueAt] at h
  split at h
  · obtain ⟨found, -, hsame⟩ := map_eq_ok.1 h
    obtain ⟨rfl, -⟩ := Prod.mk.inj hsame
    exact .text _
  · dsimp only at h
    split at h
    · obtain ⟨rfl, -⟩ := Prod.mk.inj (Except.ok.inj h)
      exact .table List.nodup_nil (by simp)
    · exact hmembers _ _ _ h
  · dsimp only at h
    split at h
    · obtain ⟨rfl, -⟩ := Prod.mk.inj (Except.ok.inj h)
      exact .list (by simp)
    · exact hitems _ _ _ h
  · exact readable_of_scalarAt h

/-- The value of a key that occurs twice replaces the one before, so the keys stay distinct. -/
theorem givesReadable_membersAt {fuel : Nat} (hvalue : GivesReadable (valueAt fuel))
    (hmembers : ∀ seen, Value.Readable (.table seen) → GivesReadable (membersAt fuel seen))
    {seen : Assoc Value} (hseen : Value.Readable (.table seen)) :
    GivesReadable (membersAt (fuel + 1) seen) := by
  intro cursor value next h
  rw [membersAt] at h
  split at h
  · split at h
    · cases h
    · next key behindKey _ =>
      dsimp only at h
      split at h
      · split at h
        · cases h
        · next found behindValue hfound =>
          have hmore := hseen.set (String.ofList key) (hvalue _ _ _ hfound)
          split at h
          · obtain ⟨rfl, -⟩ := Prod.mk.inj (Except.ok.inj h)
            exact hmore
          · exact hmembers _ hmore _ _ _ h
          · cases h
      · cases h
  · cases h

theorem givesReadable_itemsAt {fuel : Nat} (hvalue : GivesReadable (valueAt fuel))
    (hitems : GivesReadable (itemsAt fuel)) : GivesReadable (itemsAt (fuel + 1)) := by
  intro cursor value next h
  rw [itemsAt] at h
  split at h
  · cases h
  · next found behind hfound =>
    have hreadable := hvalue _ _ _ hfound
    dsimp only at h
    split at h
    · obtain ⟨rfl, -⟩ := Prod.mk.inj (Except.ok.inj h)
      exact .list (List.forall_mem_singleton.2 hreadable)
    · split at h
      · next items last hrest =>
        obtain ⟨rfl, -⟩ := Prod.mk.inj (Except.ok.inj h)
        cases hitems _ _ _ hrest with
        | list readable => exact .list (List.forall_mem_cons.2 ⟨hreadable, readable⟩)
      · exact hitems _ _ _ h
    · cases h

/-- The three readers, by induction on their fuel. -/
theorem givesReadable (fuel : Nat) :
    GivesReadable (valueAt fuel) ∧
    (∀ seen, Value.Readable (.table seen) → GivesReadable (membersAt fuel seen)) ∧
    GivesReadable (itemsAt fuel) := by
  induction fuel with
  | zero =>
    refine ⟨fun cursor value next h => ?_, fun seen _ cursor value next h => ?_,
      fun cursor value next h => ?_⟩
    · rw [valueAt] at h
      cases h
    · rw [membersAt] at h
      cases h
    · rw [itemsAt] at h
      cases h
  | succ fuel ih =>
    obtain ⟨hvalue, hmembers, hitems⟩ := ih
    have hempty : Value.Readable (.table []) := .table List.nodup_nil (by simp)
    exact ⟨givesReadable_valueAt (hmembers [] hempty) hitems,
      fun seen => givesReadable_membersAt hvalue hmembers, givesReadable_itemsAt hvalue hitems⟩

/-- **Every document is read as a readable value.** -/
theorem readable_of_read {document : String} {value : Value} (h : read document = .ok value) :
    value.Readable := by
  rw [read] at h
  dsimp only at h
  split at h
  · cases h
  · split at h
    · cases h
    · next found behind hfound =>
      split at h
      · rw [← Except.ok.inj h]
        exact (givesReadable _).1 _ _ _ hfound
      · cases h

end Json

end ProjectReview
