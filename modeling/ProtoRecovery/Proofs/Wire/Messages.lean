import Mathlib.Data.List.ReduceOption
import ProtoRecovery.Proofs.Wire.Records
import ProtoRecovery.Wire.Fields

/-! # Messages that are read as they were written -/
namespace ProtoRecovery.Wire

/-- The bytes of a message of some kind that holds fields, with the messages inside it nested no deeper than `depth`.
The parts of option names, which have required fields, are not among them. -/
inductive Holds : (depth : Nat) → MessageKind → Bytes → Fields → Prop
  | nil {depth : Nat} {kind : MessageKind} : Holds depth kind [] []
  | text {depth : Nat} {kind : MessageKind} {number : Nat} {t rest : Bytes} {fields : Fields}
      (valid : 1 ≤ number ∧ number ≤ maxNumber) (plain : kind.content? number = none) (short : t.length < wordLimit)
      (others : Holds depth kind rest fields) :
      Holds depth kind (Encode.text number t ++ rest) ((number, .text t) :: fields)
  | number {depth : Nat} {kind : MessageKind} {field : Nat} {i : Int32} {rest : Bytes} {fields : Fields}
      (valid : 1 ≤ field ∧ field ≤ maxNumber) (others : Holds depth kind rest fields) :
      Holds depth kind (Encode.number field i ++ rest) ((field, .number (varintOfInt32 i)) :: fields)
  | message {depth : Nat} {kind sub : MessageKind} {number : Nat} {t rest : Bytes} {inner fields : Fields}
      (valid : 1 ≤ number ∧ number ≤ maxNumber) (content : kind.content? number = some (.submessage sub))
      (named : sub ≠ .namePart) (short : t.length < wordLimit) (held : Holds depth sub t inner)
      (others : Holds (depth + 1) kind rest fields) :
      Holds (depth + 1) kind (Encode.text number t ++ rest) ((number, .message inner) :: fields)

namespace Holds
variable {depth : Nat} {kind sub : MessageKind} {t u : Bytes} {fields more inner : Fields}

theorem append (h : Holds depth kind t fields) (h' : Holds depth kind u more) :
    Holds depth kind (t ++ u) (fields ++ more) := by
  induction h with
  | nil => exact h'
  | text valid plain short _ ih => simpa using Holds.text valid plain short (ih h')
  | number valid _ ih => simpa using Holds.number valid (ih h')
  | message valid content named short held _ _ ih => simpa using Holds.message valid content named short held (ih h')

theorem eq_nil_iff (h : Holds depth kind t fields) : t = [] ↔ fields = [] := by
  cases h with
  | nil => simp
  | text => simp [Encode.text, tag_ne_nil]
  | number => simp [Encode.number, tag_ne_nil]
  | message => simp [Encode.text, tag_ne_nil]

/-- The records of a message, and the fields that are read from them. -/
theorem recorded (h : Holds depth kind t fields) :
    ∃ records, Recorded t records ∧ readEach (readFields depth) kind records = .ok fields := by
  induction h with
  | nil => exact ⟨[], .nil, rfl⟩
  | @text depth kind number t rest fields valid plain short _ ih =>
    obtain ⟨records, hrecords, hread⟩ := ih
    refine ⟨_, .cons (by simp [Encode.text, tag_ne_nil]) (readRecord_text valid short) hrecords, ?_⟩
    simp [readEach, readValue, plain, hread]
  | @number depth kind field i rest fields valid _ ih =>
    obtain ⟨records, hrecords, hread⟩ := ih
    refine ⟨_, .cons (by simp [Encode.number, tag_ne_nil]) (readRecord_number valid i) hrecords, ?_⟩
    simp [readEach, readValue, hread]
  | @message depth kind sub number t rest inner fields valid content named short _ _ held ih =>
    obtain ⟨records, hrecords, hread⟩ := ih
    obtain ⟨own, hown, hinner⟩ := held
    have hmessage : readFields (depth + 1) sub t = .ok inner := by simp [readFields, hown.scan, hinner]
    refine ⟨_, .cons (by simp [Encode.text, tag_ne_nil]) (readRecord_text valid short) hrecords, ?_⟩
    simp [readEach, readValue, content, hmessage, hread, Except.map]

theorem readFields (h : Holds depth kind t fields) : readFields (depth + 1) kind t = .ok fields := by
  obtain ⟨records, hrecords, hread⟩ := h.recorded
  simp [Wire.readFields, hrecords.scan, hread]

/-- What is inside a message is held in it. -/
theorem inside (h : Holds depth kind t fields) {number : Nat} (hmem : (number, Value.message inner) ∈ fields)
    (content : kind.content? number = some (.submessage sub)) :
    sub ≠ .namePart ∧ ∃ depth t, Holds depth sub t inner := by
  induction h with
  | nil => cases hmem
  | text _ _ _ _ ih => exact ih (by simpa using hmem) content
  | number _ _ ih => exact ih (by simpa using hmem) content
  | message _ content' named _ held _ _ ih =>
    rcases List.mem_cons.1 hmem with heq | hmem
    · cases heq
      obtain rfl : sub = _ := by simpa [content] using content'
      exact ⟨named, _, _, held⟩
    · exact ih hmem content

theorem missing? (h : Holds depth kind t fields) (named : kind ≠ .namePart) (down : Nat) :
    missing? down kind fields = none := by
  induction down generalizing depth kind t fields with
  | zero => rfl
  | succ down ih =>
    have hown : ownGaps kind fields = [] := by
      cases kind with
      | namePart => exact absurd rfl named
      | _ => rfl
    rw [Wire.missing?, hown, List.append_nil, Option.map_eq_none_iff]
    suffices hgaps : (fields.filterMap _ : List Gap) = [] by rw [hgaps, firstGap]
    refine List.filterMap_eq_nil_iff.2 ?_
    rintro ⟨number, value⟩ hmem
    cases value with
    | number | text | packed | skipped => rfl
    | message inner =>
      dsimp only
      split
      · next sub content =>
        obtain ⟨hsub, _, _, held⟩ := h.inside hmem content
        rw [ih held hsub, Option.map_none]
      · rfl

end Holds

/-! ### Fields as they are stored -/

namespace Stored

@[simp] def text? (number : Nat) (t : Option Bytes) : Fields := t.toList.map fun t => (number, .text t)

@[simp] def number? (field : Nat) (i : Option Int32) : Fields := i.toList.map fun i => (field, .number (varintOfInt32 i))

@[simp] def texts (number : Nat) (l : List Bytes) : Fields := l.map fun t => (number, .text t)

@[simp] def numbers (field : Nat) (l : List Int32) : Fields := l.map fun i => (field, .number (varintOfInt32 i))

def part (number : Nat) (content : Fields) : Fields := if content.isEmpty then [] else [(number, .message content)]

@[simp] def entries {α : Type} (number : Nat) (store : α → Fields) (l : List (Option α)) : Fields :=
  l.reduceOption.map fun a => (number, .message (store a))

end Stored

/-- Bytes that hold fields, if there are not too many of them for a length. -/
def Fits (depth : Nat) (kind : MessageKind) (t : Bytes) (fields : Fields) : Prop :=
  t.length < wordLimit → Holds depth kind t fields

theorem length_lt_of_text {n : Nat} {t : Bytes} (short : (Encode.text n t).length < wordLimit) :
    t.length < wordLimit := by
  simp only [Encode.text, List.length_append] at short
  omega

namespace Fits
variable {depth : Nat} {kind sub : MessageKind} {t u : Bytes} {fields more : Fields} {n : Nat}

theorem nil : Fits depth kind [] [] := fun _ => .nil

theorem append (h : Fits depth kind t fields) (h' : Fits depth kind u more) :
    Fits depth kind (t ++ u) (fields ++ more) := by
  intro short
  rw [List.length_append] at short
  exact (h (by omega)).append (h' (by omega))

theorem text (t : Bytes) (valid : 1 ≤ n ∧ n ≤ maxNumber := by decide) (plain : kind.content? n = none := by rfl) :
    Fits depth kind (Encode.text n t) [(n, .text t)] := by
  intro short
  simpa using Holds.text valid plain (length_lt_of_text short) .nil

theorem number (i : Int32) (valid : 1 ≤ n ∧ n ≤ maxNumber := by decide) :
    Fits depth kind (Encode.number n i) [(n, .number (varintOfInt32 i))] := by
  intro _
  simpa using Holds.number (i := i) valid .nil

theorem message (h : Fits depth sub t fields) (valid : 1 ≤ n ∧ n ≤ maxNumber := by decide)
    (content : kind.content? n = some (.submessage sub) := by rfl) (named : sub ≠ .namePart := by decide) :
    Fits (depth + 1) kind (Encode.text n t) [(n, .message fields)] := by
  intro short
  have ht := length_lt_of_text short
  simpa using Holds.message valid content named ht (h ht) .nil

theorem flatMap {α : Type} {write : α → Bytes} {store : α → Fields} {l : List α}
    (h : ∀ a ∈ l, Fits depth kind (write a) (store a)) : Fits depth kind (l.flatMap write) (l.flatMap store) := by
  induction l with
  | nil => exact .nil
  | cons a l ih =>
    obtain ⟨ha, hl⟩ := List.forall_mem_cons.1 h
    exact ha.append (ih hl)

theorem text? (t : Option Bytes) (valid : 1 ≤ n ∧ n ≤ maxNumber := by decide)
    (plain : kind.content? n = none := by rfl) : Fits depth kind (Encode.text? n t) (Stored.text? n t) := by
  cases t with
  | none => exact .nil
  | some t => exact .text t valid plain

theorem number? (i : Option Int32) (valid : 1 ≤ n ∧ n ≤ maxNumber := by decide) :
    Fits depth kind (Encode.number? n i) (Stored.number? n i) := by
  cases i with
  | none => exact .nil
  | some i => exact .number i valid

theorem texts (l : List Bytes) (valid : 1 ≤ n ∧ n ≤ maxNumber := by decide)
    (plain : kind.content? n = none := by rfl) :
    Fits depth kind (l.flatMap (Encode.text n)) (Stored.texts n l) := by
  rw [Stored.texts, List.map_eq_flatMap]
  exact .flatMap fun t _ => .text t valid plain

theorem numbers (l : List Int32) (valid : 1 ≤ n ∧ n ≤ maxNumber := by decide) :
    Fits depth kind (l.flatMap (Encode.number n)) (Stored.numbers n l) := by
  rw [Stored.numbers, List.map_eq_flatMap]
  exact .flatMap fun i _ => .number i valid

/-- A message without fields is left out, by its bytes as by its fields. -/
theorem part (h : Fits depth sub t fields) (valid : 1 ≤ n ∧ n ≤ maxNumber := by decide)
    (content : kind.content? n = some (.submessage sub) := by rfl) (named : sub ≠ .namePart := by decide) :
    Fits (depth + 1) kind (Encode.part n t) (Stored.part n fields) := by
  intro short
  by_cases ht : t = []
  · have hfields : fields = [] := (h (by simp [ht, wordLimit])).eq_nil_iff.1 ht
    simpa [Encode.part, Stored.part, ht, hfields] using Holds.nil
  · have hwhole : Encode.part n t = Encode.text n t := by simp [Encode.part, ht]
    rw [hwhole] at short ⊢
    have hfields : fields ≠ [] := fun hf => ht ((h (length_lt_of_text short)).eq_nil_iff.2 hf)
    simpa [Stored.part, hfields] using h.message valid content named short

theorem entries {α : Type} {write : α → Bytes} {store : α → Fields} (h : ∀ a, Fits depth sub (write a) (store a))
    (l : List (Option α)) (valid : 1 ≤ n ∧ n ≤ maxNumber := by decide)
    (content : kind.content? n = some (.submessage sub) := by rfl) (named : sub ≠ .namePart := by decide) :
    Fits (depth + 1) kind (Encode.entries n write l) (Stored.entries n store l) := by
  have hstored : Stored.entries n store l = l.flatMap fun e => e.elim [] fun a => [(n, .message (store a))] := by
    induction l with
    | nil => rfl
    | cons e l ih => cases e <;> simp [Stored.entries, ← ih]
  rw [hstored]
  refine .flatMap fun e _ => ?_
  cases e with
  | none => exact .nil
  | some a => exact (h a).message valid content named

end Fits
end ProtoRecovery.Wire
