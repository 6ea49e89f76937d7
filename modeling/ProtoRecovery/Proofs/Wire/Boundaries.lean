import ProtoRecovery.Proofs.Wire.Records
import ProtoRecovery.Wire.Decode

/-! # Boundaries: a record is read to its end and no further, so messages can be joined -/
namespace ProtoRecovery.Wire

/-- A reader has stopped at the rest of some bytes: before any other rest it stops as well, with the same
result. -/
def Stops {α : Type} (read : Bytes → Option α) (t rest : Bytes) (result : Bytes → α) : Prop :=
  ∃ front, t = front ++ rest ∧ ∀ u, read (front ++ u) = some (result u)

section
variable {α β : Type} {read : Bytes → Option α} {next : α → Option β} {t middle rest : Bytes}
  {result : Bytes → α} {last : Bytes → β}

theorem Stops.here (h : ∀ u, read u = some (result u)) : Stops read t t result := ⟨[], rfl, h⟩

/-- One reader goes on where another has stopped. -/
theorem Stops.bind (h : Stops read t middle result) (h' : Stops (fun u => next (result u)) middle rest last) :
    Stops (fun u => (read u).bind next) t rest last := by
  obtain ⟨front, rfl, hfront⟩ := h
  obtain ⟨back, rfl, hback⟩ := h'
  refine ⟨front ++ back, (List.append_assoc ..).symm, fun u => ?_⟩
  show (read (front ++ back ++ u)).bind next = _
  rw [List.append_assoc, hfront, Option.bind_some]
  exact hback u

theorem Stops.map (f : α → β) (h : Stops read t rest result) :
    Stops (fun u => (read u).map f) t rest fun u => f (result u) := by
  obtain ⟨front, rfl, hfront⟩ := h
  refine ⟨front, rfl, fun u => ?_⟩
  show (read (front ++ u)).map f = _
  rw [hfront, Option.map_some]

/-- A reader that needs a byte has taken one. -/
theorem Stops.filled (h : Stops read t rest result) (needs : read [] = none) :
    ∃ front, front ≠ [] ∧ t = front ++ rest ∧ ∀ u, read (front ++ u) = some (result u) := by
  obtain ⟨front, hfront, hread⟩ := h
  refine ⟨front, ?_, hfront, hread⟩
  rintro rfl
  have hempty := hread []
  rw [List.nil_append, needs] at hempty
  cases hempty

end

section
variable {t rest : Bytes} {n : Nat}

theorem stops_readVarintIn {room : Nat} (h : readVarintIn room t = some (n, rest)) :
    Stops (readVarintIn room) t rest fun u => (n, u) := by
  induction room generalizing t n with
  | zero => cases h
  | succ room ih =>
    cases t with
    | nil => cases h
    | cons b t =>
      rw [readVarintIn] at h
      split at h
      · next hlast =>
        split at h
        · cases h
        · next hfits =>
          cases h
          refine ⟨[b], rfl, fun u => ?_⟩
          rw [List.singleton_append, readVarintIn, if_pos hlast, if_neg hfits]
      · next hmore =>
        obtain ⟨⟨high, middle⟩, hhigh, heq⟩ := Option.map_eq_some_iff.1 h
        cases heq
        obtain ⟨front, rfl, hfront⟩ := ih hhigh
        refine ⟨b :: front, rfl, fun u => ?_⟩
        rw [List.cons_append, readVarintIn, if_neg hmore, hfront, Option.map_some]

theorem stops_readVarint (h : readVarint t = some (n, rest)) : Stops readVarint t rest fun u => (n, u) :=
  stops_readVarintIn h

theorem stops_readTag {max number wireType : Nat} (h : readTag max t = some (number, wireType, rest)) :
    Stops (readTag max) t rest fun u => (number, wireType, u) := by
  obtain ⟨⟨tag, middle⟩, hvarint, hvalid⟩ := Option.bind_eq_some_iff.1 h
  dsimp only at hvalid
  split at hvalid
  · next valid =>
    cases hvalid
    exact (stops_readVarint hvarint).bind (.here fun u => if_pos valid)
  · cases hvalid

theorem stops_readExactly {b : Bytes} (h : readExactly n t = some (b, rest)) :
    Stops (readExactly n) t rest fun u => (b, u) := by
  cases n with
  | zero =>
    cases h
    exact .here fun u => rfl
  | succ n =>
    rw [readExactly] at h
    split at h
    · cases h
    · next x rest hdrop =>
      cases h
      have hlength : (t.take (n + 1)).length = n + 1 := by
        have := congrArg List.length hdrop
        rw [List.length_drop, List.length_cons] at this
        rw [List.length_take]
        omega
      have hrest : t.drop (n + 1) = rest := by rw [← List.drop_drop, hdrop, List.drop_one, List.tail_cons]
      refine ⟨t.take (n + 1), by rw [← hrest, List.take_append_drop], fun u => ?_⟩
      have hread := readExactly_append (t.take (n + 1)) u
      rwa [hlength] at hread

theorem stops_readDelimited {b : Bytes} (h : readDelimited t = some (b, rest)) :
    Stops readDelimited t rest fun u => (b, u) := by
  obtain ⟨⟨length, middle⟩, hvarint, hexactly⟩ := Option.bind_eq_some_iff.1 h
  exact (stops_readVarint hvarint).bind (stops_readExactly hexactly)

theorem stops_readFlat {wireType : Nat} {payload : Payload} (h : readFlat wireType t = some (payload, rest)) :
    Stops (readFlat wireType) t rest fun u => (payload, u) := by
  unfold readFlat at h
  split at h
  · obtain ⟨⟨n, rest⟩, hread, heq⟩ := Option.map_eq_some_iff.1 h
    cases heq
    exact (stops_readVarint hread).map _
  · obtain ⟨⟨b, rest⟩, hread, heq⟩ := Option.map_eq_some_iff.1 h
    cases heq
    exact (stops_readExactly hread).map _
  · obtain ⟨⟨b, rest⟩, hread, heq⟩ := Option.map_eq_some_iff.1 h
    cases heq
    exact (stops_readDelimited hread).map _
  · obtain ⟨⟨b, rest⟩, hread, heq⟩ := Option.map_eq_some_iff.1 h
    cases heq
    exact (stops_readExactly hread).map _
  · cases h

/-- What one record does to the groups that are open: it opens one more, closes the innermost, or leaves them. -/
def skipRecord (group : Nat) (outer : List Nat) (t : Bytes) : Option (List Nat × Bytes) :=
  (readTag maxGroupNumber t).bind fun (number, wireType, rest) =>
    match wireType with
    | 3 => if maxDepth ≤ outer.length then none else some (number :: group :: outer, rest)
    | 4 => if number = group then some (outer, rest) else none
    | _ => (readFlat wireType rest).map fun (_, rest) => (group :: outer, rest)

theorem skipGroups_succ (fuel group : Nat) (outer : List Nat) (t : Bytes) :
    skipGroups (fuel + 1) (group :: outer) t = (skipRecord group outer t).bind fun x => skipGroups fuel x.1 x.2 := by
  rw [skipGroups, skipRecord, Option.bind_assoc]
  apply Option.bind_congr
  rintro ⟨number, wireType, rest⟩ -
  by_cases hopens : wireType = 3
  · by_cases hdepth : maxDepth ≤ outer.length <;> simp [hopens, hdepth]
  by_cases hcloses : wireType = 4
  · by_cases hgroup : number = group <;> simp [hcloses, hgroup]
  · simp only [Option.bind_map]
    rfl

theorem stops_skipRecord {group : Nat} {outer opened : List Nat} (h : skipRecord group outer t = some (opened, rest)) :
    Stops (skipRecord group outer) t rest fun u => (opened, u) := by
  obtain ⟨⟨number, wireType, middle⟩, htag, hnext⟩ := Option.bind_eq_some_iff.1 h
  refine (stops_readTag htag).bind ?_
  dsimp only at hnext ⊢
  split at hnext
  · split at hnext
    · cases hnext
    · next hdepth =>
      cases hnext
      exact .here fun u => if_neg hdepth
  · split at hnext
    · next hgroup =>
      cases hnext
      exact .here fun u => if_pos hgroup
    · cases hnext
  · obtain ⟨⟨payload, rest⟩, hflat, heq⟩ := Option.map_eq_some_iff.1 hnext
    cases heq
    exact (stops_readFlat hflat).map _

/-- Groups are skipped in the same way before any rest, with any fuel that is enough for their bytes. -/
theorem stops_skipGroups {fuel : Nat} {opened : List Nat} (h : skipGroups fuel opened t = some rest) :
    ∃ front, t = front ++ rest ∧ ∀ u more, front.length ≤ more → skipGroups more opened (front ++ u) = some u := by
  induction fuel generalizing opened t with
  | zero =>
    cases opened with
    | nil =>
      cases h
      exact ⟨[], rfl, fun u more _ => by rw [skipGroups, List.nil_append]⟩
    | cons group outer => cases h
  | succ fuel ih =>
    cases opened with
    | nil =>
      cases h
      exact ⟨[], rfl, fun u more _ => by rw [skipGroups, List.nil_append]⟩
    | cons group outer =>
      rw [skipGroups_succ] at h
      obtain ⟨⟨opened, middle⟩, hrecord, hgroups⟩ := Option.bind_eq_some_iff.1 h
      obtain ⟨front, filled, rfl, hfront⟩ := (stops_skipRecord hrecord).filled rfl
      obtain ⟨back, rfl, hback⟩ := ih hgroups
      refine ⟨front ++ back, (List.append_assoc ..).symm, fun u more enough => ?_⟩
      have hpos : 0 < front.length := List.length_pos_iff.2 filled
      rw [List.length_append] at enough
      obtain ⟨less, rfl⟩ := Nat.exists_eq_succ_of_ne_zero (show more ≠ 0 by omega)
      rw [List.append_assoc, skipGroups_succ, hfront, Option.bind_some]
      exact hback u less (by omega)

theorem stops_readRecord {record : Record} (h : readRecord t = some (record, rest)) :
    Stops readRecord t rest fun u => (record, u) := by
  obtain ⟨⟨number, wireType, middle⟩, htag, hnext⟩ := Option.bind_eq_some_iff.1 h
  refine (stops_readTag htag).bind ?_
  dsimp only at hnext ⊢
  split at hnext
  · obtain ⟨rest, hgroups, heq⟩ := Option.map_eq_some_iff.1 hnext
    cases heq
    obtain ⟨front, rfl, hfront⟩ := stops_skipGroups hgroups
    refine ⟨front, rfl, fun u => ?_⟩
    have enough : front.length ≤ (front ++ u).length := by
      rw [List.length_append]
      omega
    exact congrArg (Option.map _) (hfront u _ enough)
  · obtain ⟨⟨payload, rest⟩, hflat, heq⟩ := Option.map_eq_some_iff.1 hnext
    cases heq
    exact (stops_readFlat hflat).map _

end

/-! ### Messages that are joined -/

section
variable {t u : Bytes} {records more : List Record}

theorem recorded_of_scanIn {room : Bytes} (h : scanIn room t = ⟨records, true⟩) : Recorded t records := by
  induction room generalizing t records with
  | nil =>
    cases t with
    | nil =>
      cases h
      exact .nil
    | cons b t => cases h
  | cons x room ih =>
    cases t with
    | nil =>
      cases h
      exact .nil
    | cons b t =>
      rw [scanIn] at h
      split at h
      · cases h
      · next record rest hrecord =>
        obtain ⟨hrecords, hcomplete⟩ := Scan.mk.inj h
        obtain ⟨front, filled, hfront, hread⟩ := (stops_readRecord hrecord).filled rfl
        have others : Recorded rest (scanIn room rest).records := ih (by rw [← hcomplete])
        rw [← hrecords, hfront]
        exact .cons filled hread others

theorem Recorded.append (h : Recorded t records) (h' : Recorded u more) : Recorded (t ++ u) (records ++ more) := by
  induction h with
  | nil => exact h'
  | cons filled first _ ih =>
    rw [List.append_assoc]
    exact .cons filled first ih

theorem recorded_of_scan (h : (scan t).complete = true) : Recorded t (scan t).records := by
  have hscan : scanIn t t = ⟨(scan t).records, true⟩ := by
    rw [← h]
    rfl
  exact recorded_of_scanIn hscan

/-- Messages are joined as their records are. -/
theorem scan_append (ht : (scan t).complete = true) (hu : (scan u).complete = true) :
    scan (t ++ u) = ⟨(scan t).records ++ (scan u).records, true⟩ :=
  ((recorded_of_scan ht).append (recorded_of_scan hu)).scan

end

section
variable {inner : MessageKind → Bytes → Except DecodeError Fields} {kind : MessageKind}

theorem readEach_append {records more : List Record} {fields others : Fields}
    (h : readEach inner kind records = .ok fields) (h' : readEach inner kind more = .ok others) :
    readEach inner kind (records ++ more) = .ok (fields ++ others) := by
  induction records generalizing fields with
  | nil =>
    cases h
    exact h'
  | cons record records ih =>
    obtain ⟨number, payload⟩ := record
    rw [readEach] at h
    rw [List.cons_append, readEach]
    split at h
    · cases h
    · next value hvalue =>
      split at h
      · cases h
      · next rest hrest =>
        cases h
        rw [ih hrest]
        rfl

theorem readFields_eq_ok {depth : Nat} {t : Bytes} {fields : Fields} : readFields (depth + 1) kind t = .ok fields ↔
    readEach (readFields depth) kind (scan t).records = .ok fields ∧ (scan t).complete = true := by
  rw [readFields]
  cases readEach (readFields depth) kind (scan t).records with
  | error e => simp
  | ok read => cases (scan t).complete <;> simp

theorem readFields_append {depth : Nat} {t u : Bytes} {fields others : Fields}
    (ht : readFields (depth + 1) kind t = .ok fields) (hu : readFields (depth + 1) kind u = .ok others) :
    readFields (depth + 1) kind (t ++ u) = .ok (fields ++ others) := by
  obtain ⟨hfields, htscan⟩ := readFields_eq_ok.1 ht
  obtain ⟨hothers, huscan⟩ := readFields_eq_ok.1 hu
  rw [readFields_eq_ok, scan_append htscan huscan]
  exact ⟨readEach_append hfields hothers, rfl⟩

end

theorem firstGap_eq_none {gaps : List Gap} : firstGap gaps = none ↔ gaps = [] := by
  cases gaps with
  | nil => simp [firstGap]
  | cons gap gaps =>
    rw [firstGap]
    cases firstGap gaps <;> simp

/-- A set lacks a required field only where one of its parts does. -/
theorem missing?_append {depth : Nat} {fields others : Fields} (h : missing? depth .fileSet fields = none)
    (h' : missing? depth .fileSet others = none) : missing? depth .fileSet (fields ++ others) = none := by
  cases depth with
  | zero => rfl
  | succ depth =>
    rw [missing?, Option.map_eq_none_iff, firstGap_eq_none, List.append_eq_nil_iff] at h h' ⊢
    rw [List.filterMap_append, h.1, h'.1]
    exact ⟨rfl, rfl⟩

theorem decodeSet_eq_ok {t : Bytes} {files : List Schema.File} : decodeSet t = .ok files ↔
    ∃ fields, readFields maxDepth .fileSet t = .ok fields ∧ missing? maxDepth .fileSet fields = none ∧
      files = (messagesAt 1 fields).map file := by
  rw [decodeSet]
  cases readFields maxDepth .fileSet t with
  | error e => simp
  | ok fields => cases hmissing : missing? maxDepth .fileSet fields <;> simp [hmissing, eq_comm]

/-- The files of two sets that are joined are those of the first and then those of the second. -/
theorem decodeSet_append {t u : Bytes} {files more : List Schema.File} (ht : decodeSet t = .ok files)
    (hu : decodeSet u = .ok more) : decodeSet (t ++ u) = .ok (files ++ more) := by
  obtain ⟨fields, hfields, hmissing, rfl⟩ := decodeSet_eq_ok.1 ht
  obtain ⟨others, hothers, hmissing', rfl⟩ := decodeSet_eq_ok.1 hu
  refine decodeSet_eq_ok.2 ⟨fields ++ others, readFields_append hfields hothers, ?_, ?_⟩
  · exact missing?_append hmissing hmissing'
  · rw [← List.map_append, messagesAt, messagesAt, ← List.filterMap_append]
    rfl

end ProtoRecovery.Wire
