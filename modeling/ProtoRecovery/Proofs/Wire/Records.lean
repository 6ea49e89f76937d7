import Mathlib.Data.List.Basic
import ProtoRecovery.Wire.Encode

/-! # Records that are read as they were written -/
namespace ProtoRecovery.Wire

/-! ### Varints -/

/-- The numbers below this one fit into a varint with so many bytes after the first. -/
def varintLimit : (more : Nat) → Nat
  | 0 => 2
  | more + 1 => 128 * varintLimit more

/-- A varint holds 64 bits. -/
def wordLimit : Nat := 18446744073709551616

theorem readVarintIn_writeVarintIn (more : Nat) {n : Nat} (h : n < varintLimit more) (rest : Bytes) :
    readVarintIn (more + 1) (writeVarintIn (more + 1) n ++ rest) = some (n, rest) := by
  induction more generalizing n with
  | zero =>
    obtain rfl | rfl : n = 0 ∨ n = 1 := by
      rw [varintLimit] at h
      omega
    · rfl
    · rfl
  | succ more ih =>
    rw [writeVarintIn]
    split
    · next hn =>
      have hb : UInt8.ofNat n < 0x80 := by
        rw [UInt8.lt_iff_toNat_lt, UInt8.toNat_ofNat']
        simp
        omega
      have hn : (UInt8.ofNat n).toNat = n := by
        rw [UInt8.toNat_ofNat']
        omega
      simp [readVarintIn, hb, hn]
    · next hn =>
      have hb : ¬UInt8.ofNat (n % 128 + 128) < 0x80 := by
        rw [UInt8.lt_iff_toNat_lt, UInt8.toNat_ofNat']
        simp
        omega
      have hlow : (UInt8.ofNat (n % 128 + 128)).toNat = n % 128 + 128 := by
        rw [UInt8.toNat_ofNat']
        omega
      have hhigh : n / 128 < varintLimit more := by
        rw [varintLimit] at h
        omega
      simp only [List.cons_append, readVarintIn, if_neg hb, ih hhigh, Option.map_some, hlow]
      have hsum : n % 128 + 128 - 128 + 128 * (n / 128) = n := by omega
      rw [hsum]

theorem readVarint_writeVarint {n : Nat} (h : n < wordLimit) (rest : Bytes) :
    readVarint (writeVarint n ++ rest) = some (n, rest) :=
  readVarintIn_writeVarintIn 9 h rest

theorem writeVarint_ne_nil (n : Nat) : writeVarint n ≠ [] := by
  unfold writeVarint varintRoom writeVarintIn
  split <;> simp

theorem varintOfInt32_lt (i : Int32) : varintOfInt32 i < wordLimit := UInt64.toNat_lt _

/-- The lowest bits of a number that was extended are the number. -/
theorem int32OfVarint_varintOfInt32 (i : Int32) : int32OfVarint (varintOfInt32 i) = i := by
  apply Int32.toBitVec_inj.1
  change (i.toBitVec.signExtend 64).setWidth 32 = i.toBitVec
  grind

/-! ### Records -/

theorem readTag_tag {number wireType : Nat} (hn : 1 ≤ number ∧ number ≤ maxNumber) (hw : wireType < 8) (rest : Bytes) :
    readTag maxNumber (Encode.tag number wireType ++ rest) = some (number, wireType, rest) := by
  have hlt : number * 8 + wireType < wordLimit := by
    have := hn.2
    unfold maxNumber at this
    unfold wordLimit
    omega
  have hnumber : (number * 8 + wireType) / 8 = number := by omega
  have htype : (number * 8 + wireType) % 8 = wireType := by omega
  simp [readTag, Encode.tag, readVarint_writeVarint hlt, hnumber, htype, hn]

theorem readExactly_append (t rest : Bytes) : readExactly t.length (t ++ rest) = some (t, rest) := by
  cases t with
  | nil => rfl
  | cons b t =>
    have hdrop : (b :: t ++ rest).drop t.length = (b :: t).drop t.length ++ rest :=
      List.drop_append_of_le_length (by simp)
    obtain ⟨x, hx⟩ : ∃ x, (b :: t).drop t.length = [x] := List.length_eq_one_iff.1 (by simp)
    rw [List.length_cons, readExactly, hdrop, hx]
    simp

theorem readDelimited_append {t : Bytes} (h : t.length < wordLimit) (rest : Bytes) :
    readDelimited (writeVarint t.length ++ t ++ rest) = some (t, rest) := by
  simp [readDelimited, readVarint_writeVarint h, readExactly_append]

theorem readRecord_text {number : Nat} (hn : 1 ≤ number ∧ number ≤ maxNumber) {t : Bytes} (h : t.length < wordLimit)
    (rest : Bytes) : readRecord (Encode.text number t ++ rest) = some (⟨number, .bytes t⟩, rest) := by
  have htag := readTag_tag hn (show 2 < 8 by decide) (writeVarint t.length ++ t ++ rest)
  have hbytes := readDelimited_append h rest
  simp only [List.append_assoc] at htag hbytes
  simp [readRecord, Encode.text, htag, readFlat, hbytes]

theorem readRecord_number {field : Nat} (hn : 1 ≤ field ∧ field ≤ maxNumber) (i : Int32) (rest : Bytes) :
    readRecord (Encode.number field i ++ rest) = some (⟨field, .varint (varintOfInt32 i)⟩, rest) := by
  have htag := readTag_tag hn (show 0 < 8 by decide) (writeVarint (varintOfInt32 i) ++ rest)
  simp [readRecord, Encode.number, htag, readFlat, readVarint_writeVarint (varintOfInt32_lt i)]

theorem tag_ne_nil (number wireType : Nat) : Encode.tag number wireType ≠ [] := writeVarint_ne_nil _

/-- Bytes that are made of records, one after the other. -/
inductive Recorded : Bytes → List Record → Prop
  | nil : Recorded [] []
  | cons {front rest : Bytes} {record : Record} {records : List Record} (filled : front ≠ [])
      (first : ∀ t, readRecord (front ++ t) = some (record, t)) (others : Recorded rest records) :
      Recorded (front ++ rest) (record :: records)

theorem Recorded.scanIn {t : Bytes} {records : List Record} (h : Recorded t records) {room : Bytes}
    (enough : t.length ≤ room.length) : scanIn room t = ⟨records, true⟩ := by
  induction h generalizing room with
  | nil => cases room <;> rfl
  | @cons front rest record records filled first others ih =>
    obtain ⟨b, front, rfl⟩ := List.exists_cons_of_ne_nil filled
    cases room with
    | nil => simp at enough
    | cons c room =>
      have hrest : rest.length ≤ room.length := by
        simp only [List.cons_append, List.length_cons, List.length_append] at enough
        omega
      have hfirst := first rest
      rw [List.cons_append] at hfirst ⊢
      simp [Wire.scanIn, hfirst, ih hrest]

theorem Recorded.scan {t : Bytes} {records : List Record} (h : Recorded t records) : scan t = ⟨records, true⟩ :=
  h.scanIn (Nat.le_refl _)

end ProtoRecovery.Wire
