import ProtoRecovery.Proofs.Wire.Stored

/-! # Schema files restored from the fields as which they are stored -/
/-! ### Schemas without absent entries -/

namespace ProtoRecovery.Schema

def EnumType.whole (e : EnumType) : Bool := e.values.all Option.isSome

def Service.whole (s : Service) : Bool := s.methods.all Option.isSome

mutual
/-- Whether no entry is absent, in a message and in those inside it. -/
def Message.whole : Message → Bool
  | ⟨_, fields, nested, enums, oneofs, extensions, _, _⟩ =>
    fields.all Option.isSome && wholeIn nested && enums.all (Option.any EnumType.whole) &&
      oneofs.all Option.isSome && extensions.all Option.isSome
def wholeIn : List (Option Message) → Bool
  | [] => true
  | none :: _ => false
  | some m :: r => m.whole && wholeIn r
end

/-- Whether no entry of a file is absent, at any depth. -/
def File.whole (f : File) : Bool :=
  wholeIn f.messages && f.enums.all (Option.any EnumType.whole) && f.services.all (Option.any Service.whole) &&
    f.extensions.all Option.isSome

theorem none_notMem_of_all {α : Type} {l : List (Option α)} (h : l.all Option.isSome = true) : none ∉ l := by
  intro hmem
  simpa using List.all_eq_true.1 h none hmem

theorem none_notMem_of_any {α : Type} {p : α → Bool} {l : List (Option α)} (h : l.all (Option.any p) = true) :
    none ∉ l := by
  intro hmem
  simpa using List.all_eq_true.1 h none hmem

theorem of_mem_any {α : Type} {p : α → Bool} {l : List (Option α)} (h : l.all (Option.any p) = true) {a : α}
    (hmem : some a ∈ l) : p a = true := by
  simpa using List.all_eq_true.1 h (some a) hmem

theorem wholeIn_eq (ms : List (Option Message)) : wholeIn ms = ms.all (Option.any Message.whole) := by
  induction ms with
  | nil => rfl
  | cons e ms ih => cases e <;> simp [wholeIn, ih]

end ProtoRecovery.Schema

namespace ProtoRecovery.Wire
open Schema

/-! ### Looking for fields by their number -/

/-- What the fields with a number hold, in order. -/
def valuesAt (n : Nat) (fields : Fields) : List Value :=
  fields.filterMap fun entry => if entry.1 = n then some entry.2 else none

@[simp] theorem valuesAt_nil (n : Nat) : valuesAt n [] = [] := rfl

@[simp] theorem valuesAt_cons (n m : Nat) (value : Value) (fields : Fields) :
    valuesAt n ((m, value) :: fields) = (if m = n then [value] else []) ++ valuesAt n fields := by
  by_cases h : m = n <;> simp [valuesAt, h]

@[simp] theorem valuesAt_append (n : Nat) (a b : Fields) : valuesAt n (a ++ b) = valuesAt n a ++ valuesAt n b :=
  List.filterMap_append

@[simp] theorem valuesAt_map {α : Type} (n m : Nat) (hold : α → Value) (l : List α) :
    valuesAt n (l.map fun a => (m, hold a)) = if m = n then l.map hold else [] := by
  by_cases h : m = n <;> simp [valuesAt, h]

@[simp] theorem valuesAt_part (n m : Nat) (content : Fields) : valuesAt n (Stored.part m content) =
    if m = n ∧ content ≠ [] then [.message content] else [] := by
  by_cases h : m = n <;> by_cases hc : content = [] <;> simp [valuesAt, Stored.part, h, hc]

@[simp] theorem Stored.messages_eq (n : Nat) (ms : List (Option Message)) :
    Stored.messages n ms = Stored.entries n Stored.message ms := by
  induction ms with
  | nil => rfl
  | cons e ms ih => cases e <;> simpa [Stored.messages] using ih

namespace Value

def text? : Value → Option Bytes
  | text t => some t
  | _ => none

def number? : Value → Option Nat
  | number i => some i
  | _ => none

def numbers : Value → List Nat
  | number i => [i]
  | packed numbers => numbers
  | _ => []

def message? : Value → Option Fields
  | message fields => some fields
  | _ => none

end Value

section Lookup
variable {n : Nat} {fields : Fields}

theorem filterMap_at {β : Type} {found : Nat × Value → Option β} {pick : Value → Option β}
    (h : ∀ m value, found (m, value) = if m = n then pick value else none) :
    fields.filterMap found = (valuesAt n fields).filterMap pick := by
  rw [valuesAt, List.filterMap_filterMap]
  congr 1
  funext ⟨m, value⟩
  rw [h]
  split <;> rfl

theorem textsAt_eq : textsAt n fields = (valuesAt n fields).filterMap Value.text? := by
  apply filterMap_at
  intro m value
  cases value <;> simp [Value.text?]

theorem varintsAt_eq : varintsAt n fields = (valuesAt n fields).filterMap Value.number? := by
  apply filterMap_at
  intro m value
  cases value <;> simp [Value.number?]

theorem messagesAt_eq : messagesAt n fields = (valuesAt n fields).filterMap Value.message? := by
  apply filterMap_at
  intro m value
  cases value <;> simp [Value.message?]

theorem numbersAt_eq : numbersAt n fields = ((valuesAt n fields).flatMap Value.numbers).map int32OfVarint := by
  induction fields with
  | nil => rfl
  | cons entry fields ih =>
    obtain ⟨m, value⟩ := entry
    by_cases h : m = n <;> cases value <;> simp_all [numbersAt, valuesAt, Value.numbers]

theorem textsAt_stored {l : List Bytes} (h : valuesAt n fields = l.map .text) : textsAt n fields = l := by
  rw [textsAt_eq, h, List.filterMap_map]
  exact List.filterMap_some

theorem textAt_stored {t : Option Bytes} (h : valuesAt n fields = t.toList.map .text) : textAt n fields = t := by
  rw [textAt, textsAt_stored h]
  cases t <;> rfl

theorem numberAt_stored {i : Option Int32}
    (h : valuesAt n fields = i.toList.map fun i => .number (varintOfInt32 i)) : numberAt n fields = i := by
  rw [numberAt, varintsAt_eq, h]
  cases i with
  | none => rfl
  | some i => exact congrArg some (int32OfVarint_varintOfInt32 i)

theorem numbersAt_stored {l : List Int32} (h : valuesAt n fields = l.map fun i => .number (varintOfInt32 i)) :
    numbersAt n fields = l := by
  rw [numbersAt_eq, h]
  clear h
  induction l with
  | nil => rfl
  | cons i l ih => simpa [Value.numbers, int32OfVarint_varintOfInt32] using ih

theorem messagesAt_stored {l : List Fields} (h : valuesAt n fields = l.map .message) : messagesAt n fields = l := by
  rw [messagesAt_eq, h, List.filterMap_map]
  exact List.filterMap_some

theorem partAt_stored {content : Fields}
    (h : valuesAt n fields = if content ≠ [] then [.message content] else []) : partAt n fields = content := by
  rw [partAt, messagesAt_eq, h]
  split
  · simp [Value.message?]
  · next hempty =>
    rw [not_not.1 hempty]
    rfl

theorem entriesAt_stored {α : Type} {read : Fields → α} (store : α → Fields) {l : List (Option α)}
    (h : valuesAt n fields = l.reduceOption.map fun a => .message (store a)) (present : none ∉ l)
    (restored : ∀ a, some a ∈ l → read (store a) = a) : entriesAt read n fields = l := by
  rw [entriesAt, messagesAt_stored (l := l.reduceOption.map store) (h.trans List.map_map.symm)]
  clear h
  induction l with
  | nil => rfl
  | cons e l ih =>
    obtain ⟨a, rfl⟩ : ∃ a, e = some a := Option.ne_none_iff_exists'.1 fun he => present (by simp [he])
    have hrest := ih (fun hmem => present (by simp [hmem])) fun b hb => restored b (by simp [hb])
    rw [List.reduceOption_cons_of_some, List.map_cons, List.map_cons, hrest, restored a (by simp)]

end Lookup

/-! ### Each declaration is restored from its fields -/

theorem enumValue_stored (v : EnumValue) : enumValue (Stored.enumValue v) = v := by
  have hname : textAt 1 (Stored.enumValue v) = v.name := textAt_stored (by simp [Stored.enumValue])
  have hnumber : numberAt 2 (Stored.enumValue v) = v.number := numberAt_stored (by simp [Stored.enumValue])
  rw [enumValue, hname, hnumber]

theorem enumType_stored {e : EnumType} (whole : e.whole = true) : enumType (Stored.enumType e) = e := by
  have hname : textAt 1 (Stored.enumType e) = e.name := textAt_stored (by simp [Stored.enumType])
  have hvalues : entriesAt enumValue 2 (Stored.enumType e) = e.values :=
    entriesAt_stored Stored.enumValue (by simp [Stored.enumType]) (none_notMem_of_all whole) fun v _ => enumValue_stored v
  rw [enumType, hname, hvalues]

theorem method_stored (m : Method) : method (Stored.method m) = m := by
  have hname : textAt 1 (Stored.method m) = m.name := textAt_stored (by simp [Stored.method])
  rw [method, hname]

theorem service_stored {s : Service} (whole : s.whole = true) : service (Stored.service s) = s := by
  have hname : textAt 1 (Stored.service s) = s.name := textAt_stored (by simp [Stored.service])
  have hmethods : entriesAt method 2 (Stored.service s) = s.methods :=
    entriesAt_stored Stored.method (by simp [Stored.service]) (none_notMem_of_all whole) fun m _ => method_stored m
  rw [service, hname, hmethods]

theorem oneof_stored (o : Oneof) : oneof (Stored.oneof o) = o := by
  have hname : textAt 1 (Stored.oneof o) = o.name := textAt_stored (by simp [Stored.oneof])
  rw [oneof, hname]

theorem features_stored (f : Features) : features (Stored.features f) = f := by
  have hpresence : numberAt 1 (Stored.features f) = f.presence := numberAt_stored (by simp [Stored.features])
  have hencoding : numberAt 5 (Stored.features f) = f.encoding := numberAt_stored (by simp [Stored.features])
  rw [features, hpresence, hencoding]

theorem field_stored (f : Field) : field (Stored.field f) = f := by
  have hname : textAt 1 (Stored.field f) = f.name := textAt_stored (by simp [Stored.field])
  have hnumber : numberAt 3 (Stored.field f) = f.number := numberAt_stored (by simp [Stored.field])
  have hlabel : numberAt 4 (Stored.field f) = f.label := numberAt_stored (by simp [Stored.field])
  have htype : numberAt 5 (Stored.field f) = f.type := numberAt_stored (by simp [Stored.field])
  have htypeName : textAt 6 (Stored.field f) = f.typeName := textAt_stored (by simp [Stored.field])
  have hindex : numberAt 9 (Stored.field f) = f.oneofIndex := numberAt_stored (by simp [Stored.field])
  have hoptions : partAt 8 (Stored.field f) = Stored.part 21 (Stored.features f.features) :=
    partAt_stored (by simp [Stored.field])
  have hfeatures : partAt 21 (Stored.part 21 (Stored.features f.features)) = Stored.features f.features :=
    partAt_stored (by simp)
  rw [field, hname, hnumber, hlabel, htype, htypeName, hindex, hoptions, hfeatures, features_stored]

theorem flagAt_messageOptions (mapEntry : Bool) (f : Features) : flagAt 7 (Stored.messageOptions mapEntry f) = mapEntry := by
  have hnumbers : varintsAt 7 (Stored.messageOptions mapEntry f) = if mapEntry then [1] else [] := by
    rw [varintsAt_eq]
    cases mapEntry
    · simp [Stored.messageOptions]
    · simp [Stored.messageOptions, Value.number?]
      decide
  rw [flagAt, hnumbers]
  cases mapEntry <;> rfl

theorem partAt_messageOptions (mapEntry : Bool) (f : Features) :
    partAt 12 (Stored.messageOptions mapEntry f) = Stored.features f := by
  apply partAt_stored
  cases mapEntry <;> simp [Stored.messageOptions]

mutual
theorem message_stored : (m : Message) → {depth : Nat} → m.height ≤ depth → m.whole = true →
    message depth (Stored.message m) = m
  | ⟨name, fields, nested, enums, oneofs, extensions, mapEntry, features'⟩, depth, high, whole => by
    rw [Message.height] at high
    obtain ⟨depth, rfl⟩ : ∃ d, depth = d + 1 := ⟨depth - 1, by omega⟩
    simp only [Message.whole, Bool.and_eq_true] at whole
    obtain ⟨⟨⟨⟨hfields, hnested⟩, henums⟩, honeofs⟩, hextensions⟩ := whole
    have hinner : ∀ m, some m ∈ nested → message depth (Stored.message m) = m :=
      message_stored_of_mem nested (by omega) hnested
    rw [wholeIn_eq] at hnested
    rw [Stored.message]
    set stored := Stored.text? 1 name ++ _ ++ _ ++ _ ++ _ ++ _ ++ _ with hstored
    have h1 : textAt 1 stored = name := textAt_stored (by simp [hstored])
    have h2 : entriesAt field 2 stored = fields :=
      entriesAt_stored Stored.field (by simp [hstored]) (none_notMem_of_all hfields) fun f _ => field_stored f
    have h3 : entriesAt (message depth) 3 stored = nested :=
      entriesAt_stored Stored.message (by simp [hstored]) (none_notMem_of_any hnested) hinner
    have h4 : entriesAt enumType 4 stored = enums :=
      entriesAt_stored Stored.enumType (by simp [hstored]) (none_notMem_of_any henums)
        fun e he => enumType_stored (of_mem_any henums he)
    have h6 : entriesAt field 6 stored = extensions :=
      entriesAt_stored Stored.field (by simp [hstored]) (none_notMem_of_all hextensions)
        fun f _ => field_stored f
    have h7 : partAt 7 stored = Stored.messageOptions mapEntry features' := partAt_stored (by simp [hstored])
    have h8 : entriesAt oneof 8 stored = oneofs :=
      entriesAt_stored Stored.oneof (by simp [hstored]) (none_notMem_of_all honeofs) fun o _ => oneof_stored o
    rw [message, h1, h2, h3, h4, h6, h7, h8, flagAt_messageOptions, partAt_messageOptions, features_stored]
theorem message_stored_of_mem : (ms : List (Option Message)) → {depth : Nat} → heightIn ms ≤ depth →
    wholeIn ms = true → ∀ m, some m ∈ ms → message depth (Stored.message m) = m
  | [], _, _, _, _, hmem => by cases hmem
  | none :: _, _, _, whole, _, _ => by cases whole
  | some x :: ms, depth, high, whole, m, hmem => by
    rw [heightIn] at high
    obtain ⟨hx, hms⟩ : x.whole = true ∧ wholeIn ms = true := by simpa [wholeIn] using whole
    rcases List.mem_cons.1 hmem with heq | hmem
    · cases heq
      exact message_stored x (by omega) hx
    · exact message_stored_of_mem ms (by omega) hms m hmem
end

theorem file_stored {f : File} (high : heightIn f.messages ≤ maxDepth) (whole : f.whole = true) :
    file (Stored.file f) = f := by
  simp only [File.whole, Bool.and_eq_true] at whole
  obtain ⟨⟨⟨hmessages, henums⟩, hservices⟩, hextensions⟩ := whole
  have hinner := message_stored_of_mem f.messages high hmessages
  rw [wholeIn_eq] at hmessages
  have hname : textAt 1 (Stored.file f) = f.name := textAt_stored (by simp [Stored.file])
  have hpackage : textAt 2 (Stored.file f) = f.package := textAt_stored (by simp [Stored.file])
  have hdependencies : textsAt 3 (Stored.file f) = f.dependencies := textsAt_stored (by simp [Stored.file])
  have hmessages : entriesAt (message maxDepth) 4 (Stored.file f) = f.messages :=
    entriesAt_stored Stored.message (by simp [Stored.file]) (none_notMem_of_any hmessages) hinner
  have henums : entriesAt enumType 5 (Stored.file f) = f.enums :=
    entriesAt_stored Stored.enumType (by simp [Stored.file]) (none_notMem_of_any henums)
      fun e he => enumType_stored (of_mem_any henums he)
  have hservices : entriesAt service 6 (Stored.file f) = f.services :=
    entriesAt_stored Stored.service (by simp [Stored.file]) (none_notMem_of_any hservices)
      fun s hs => service_stored (of_mem_any hservices hs)
  have hextensions : entriesAt field 7 (Stored.file f) = f.extensions :=
    entriesAt_stored Stored.field (by simp [Stored.file]) (none_notMem_of_all hextensions)
      fun x _ => field_stored x
  have hoptions : partAt 8 (Stored.file f) = Stored.part 50 (Stored.features f.features) :=
    partAt_stored (by simp [Stored.file])
  have hfeatures : partAt 50 (Stored.part 50 (Stored.features f.features)) = Stored.features f.features :=
    partAt_stored (by simp)
  have hpublic : numbersAt 10 (Stored.file f) = f.publicIndices := numbersAt_stored (by simp [Stored.file])
  have hweak : numbersAt 11 (Stored.file f) = f.weakIndices := numbersAt_stored (by simp [Stored.file])
  have hdialect : textAt 12 (Stored.file f) = f.dialect := textAt_stored (by simp [Stored.file])
  have hedition : numberAt 14 (Stored.file f) = f.edition := numberAt_stored (by simp [Stored.file])
  rw [file, hname, hpackage, hdialect, hedition, hdependencies, hpublic, hweak, hmessages, henums, hservices,
    hextensions, hoptions, hfeatures, features_stored]

end ProtoRecovery.Wire
