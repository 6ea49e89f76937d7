import ProtoRecovery.Proofs.Schema.Tree
import ProtoRecovery.Proofs.Wire.Messages
import ProtoRecovery.Wire.Decode

/-! # Schema files as they are stored, field by field -/
namespace ProtoRecovery.Wire
open Schema

namespace Stored

def enumValue (v : EnumValue) : Fields := text? 1 v.name ++ number? 2 v.number

def enumType (e : EnumType) : Fields := text? 1 e.name ++ entries 2 enumValue e.values

def method (m : Method) : Fields := text? 1 m.name

def service (s : Service) : Fields := text? 1 s.name ++ entries 2 method s.methods

def oneof (o : Oneof) : Fields := text? 1 o.name

def features (f : Features) : Fields := number? 1 f.presence ++ number? 5 f.encoding

def field (f : Field) : Fields :=
  text? 1 f.name ++ number? 3 f.number ++ number? 4 f.label ++ number? 5 f.type ++
    text? 6 f.typeName ++ part 8 (part 21 (features f.features)) ++ number? 9 f.oneofIndex

def messageOptions (mapEntry : Bool) (f : Features) : Fields :=
  (if mapEntry then number? 7 (some 1) else []) ++ part 12 (features f)

mutual
def message : Message → Fields
  | ⟨name, fields, nested, enums, oneofs, extensions, mapEntry, features⟩ =>
    text? 1 name ++ entries 2 field fields ++ messages 3 nested ++ entries 4 enumType enums ++
      entries 6 field extensions ++ part 7 (messageOptions mapEntry features) ++ entries 8 oneof oneofs
def messages (number : Nat) : List (Option Message) → Fields
  | [] => []
  | none :: r => messages number r
  | some m :: r => (number, .message (message m)) :: messages number r
end

def file (f : File) : Fields :=
  text? 1 f.name ++ text? 2 f.package ++ texts 3 f.dependencies ++ messages 4 f.messages ++
    entries 5 enumType f.enums ++ entries 6 service f.services ++ entries 7 field f.extensions ++
    part 8 (part 50 (features f.features)) ++ numbers 10 f.publicIndices ++ numbers 11 f.weakIndices ++
    text? 12 f.dialect ++ number? 14 f.edition

def set (files : List File) : Fields := files.map fun f => (1, .message (file f))

end Stored

/-! ### The bytes of each declaration hold its fields -/

theorem fits_enumValue (depth : Nat) (v : EnumValue) :
    Fits depth .enumValue (Encode.enumValue v) (Stored.enumValue v) :=
  (Fits.text? v.name).append (.number? v.number)

theorem fits_enumType (depth : Nat) (e : EnumType) :
    Fits (depth + 1) .enum (Encode.enumType e) (Stored.enumType e) :=
  (Fits.text? e.name).append (.entries (fits_enumValue depth) e.values)

theorem fits_method (depth : Nat) (m : Method) : Fits depth .method (Encode.method m) (Stored.method m) :=
  .text? m.name

theorem fits_service (depth : Nat) (s : Service) :
    Fits (depth + 1) .service (Encode.service s) (Stored.service s) :=
  (Fits.text? s.name).append (.entries (fits_method depth) s.methods)

theorem fits_oneof (depth : Nat) (o : Oneof) : Fits depth .oneof (Encode.oneof o) (Stored.oneof o) :=
  .text? o.name

theorem fits_features (depth : Nat) (f : Features) :
    Fits depth .featureSet (Encode.features f) (Stored.features f) :=
  (Fits.number? f.presence).append (.number? f.encoding)

theorem fits_field (depth : Nat) (f : Field) : Fits (depth + 2) .field (Encode.field f) (Stored.field f) := by
  have hoptions : Fits (depth + 1) .fieldOptions _ _ := .part (n := 21) (fits_features depth f.features)
  exact (((((Fits.text? f.name).append (.number? f.number)).append (.number? f.label)).append
    (.number? f.type)).append (.text? f.typeName)).append (.part hoptions) |>.append (.number? f.oneofIndex)

theorem fits_messageOptions (depth : Nat) (mapEntry : Bool) (f : Features) : Fits (depth + 1) .messageOptions
    (Encode.messageOptions mapEntry f) (Stored.messageOptions mapEntry f) := by
  refine Fits.append ?_ (.part (fits_features depth f))
  cases mapEntry with
  | false => exact .nil
  | true => exact .number 1

mutual
theorem fits_message : (m : Message) → {depth : Nat} → m.height + 2 ≤ depth →
    Fits depth .message (Encode.message m) (Stored.message m)
  | ⟨name, fields, nested, enums, oneofs, extensions, mapEntry, features⟩, depth, h => by
    rw [Message.height] at h
    obtain ⟨depth, rfl⟩ : ∃ d, depth = d + 3 := ⟨depth - 3, by omega⟩
    have hnested : Fits (depth + 3) .message (Encode.nestedMessages 3 nested) (Stored.messages 3 nested) :=
      fits_messages nested (by omega)
    rw [Encode.message, Stored.message]
    exact ((((((Fits.text? name).append (.entries (fits_field depth) fields)).append hnested).append
      (.entries (fits_enumType (depth + 1)) enums)).append (.entries (fits_field depth) extensions)).append
      (.part (fits_messageOptions (depth + 1) mapEntry features))).append (.entries (fits_oneof (depth + 2)) oneofs)
theorem fits_messages {kind : MessageKind} {n : Nat} : (ms : List (Option Message)) → {depth : Nat} →
    heightIn ms + 2 ≤ depth → (valid : 1 ≤ n ∧ n ≤ maxNumber := by decide) →
    (content : kind.content? n = some (.submessage .message) := by rfl) →
    Fits (depth + 1) kind (Encode.nestedMessages n ms) (Stored.messages n ms)
  | [], _, _, _, _ => .nil
  | none :: ms, depth, h, valid, content => fits_messages ms h valid content
  | some m :: ms, depth, h, valid, content => by
    rw [heightIn] at h
    exact ((fits_message m (by omega)).message valid content).append (fits_messages ms (by omega) valid content)
end

theorem fits_file (f : File) {depth : Nat} (h : heightIn f.messages + 3 ≤ depth) :
    Fits depth .file (Encode.file f) (Stored.file f) := by
  obtain ⟨depth, rfl⟩ : ∃ d, depth = d + 3 := ⟨depth - 3, by omega⟩
  have hoptions : Fits (depth + 2) .fileOptions _ _ := .part (n := 50) (fits_features (depth + 1) f.features)
  have hmessages : Fits (depth + 3) .file (Encode.nestedMessages 4 f.messages) (Stored.messages 4 f.messages) :=
    fits_messages f.messages (by omega)
  exact (((((((((((Fits.text? f.name).append (.text? f.package)).append (.texts f.dependencies)).append hmessages).append
    (.entries (fits_enumType (depth + 1)) f.enums)).append (.entries (fits_service (depth + 1)) f.services)).append
    (.entries (fits_field depth) f.extensions)).append (.part hoptions)).append (.numbers f.publicIndices)).append
    (.numbers f.weakIndices)).append (.text? f.dialect)).append (.number? f.edition)

theorem fits_set {files : List File} {depth : Nat} (h : ∀ f ∈ files, heightIn f.messages + 3 ≤ depth) :
    Fits (depth + 1) .fileSet (Encode.set files) (Stored.set files) := by
  rw [Stored.set, List.map_eq_flatMap]
  exact .flatMap fun f hf => (fits_file f (h f hf)).message

end ProtoRecovery.Wire
