import Mathlib.Data.List.Forall2
import ProtoRecovery.Proofs.Wire.Boundaries
import ProtoRecovery.Proofs.Wire.Restored
import ProtoRecovery.Source.Basic

/-! # Descriptor sets give back the files that were stored in them, and can be joined -/
namespace ProtoRecovery
open Schema

theorem Wire.decodeSet_set {files : List File} (high : ∀ f ∈ files, heightIn f.messages + 5 ≤ maxDepth)
    (whole : ∀ f ∈ files, f.whole = true) (short : (Encode.set files).length < wordLimit) :
    decodeSet (Encode.set files) = .ok files := by
  have held : Holds 9999 .fileSet (Encode.set files) (Stored.set files) := by
    refine fits_set (fun f hf => ?_) short
    have := high f hf
    unfold maxDepth at this
    omega
  have hread : readFields maxDepth .fileSet (Encode.set files) = .ok (Stored.set files) := held.readFields
  have hmessages : messagesAt 1 (Stored.set files) = files.map Stored.file :=
    messagesAt_stored (by simp [Stored.set])
  have hfiles : (files.map Stored.file).map file = files := by
    calc (files.map Stored.file).map file = files.map (fun f => file (Stored.file f)) := List.map_map
      _ = files.map id := List.map_congr_left fun f hf => file_stored (by have := high f hf; omega) (whole f hf)
      _ = files := List.map_id files
  simp only [decodeSet, hread, held.missing? (by decide) maxDepth, hmessages, hfiles]

namespace Source

theorem readSets_decoded {request : Request} (calm : request.cancelled = false) {paths : List Bytes}
    {parts : List (List File)}
    (decoded : List.Forall₂ (fun path part => ∃ content, request.disk.read path = .ok content ∧
      Wire.decodeSet content = .ok part) paths parts) :
    readSets request paths = .ok parts.flatten := by
  induction decoded with
  | nil => rfl
  | cons hfirst _ ih =>
    obtain ⟨content, hread, hpart⟩ := hfirst
    simp [readSets, calm, hread, hpart, ih, Except.map]

theorem readSets_set {request : Request} (calm : request.cancelled = false) {paths : List Bytes}
    {parts : List (List File)}
    (stored : List.Forall₂ (fun path part => request.disk.read path = .ok (Wire.Encode.set part)) paths parts)
    (decoded : ∀ part ∈ parts, Wire.decodeSet (Wire.Encode.set part) = .ok part) :
    readSets request paths = .ok parts.flatten := by
  have both := (List.forall₂_and_left _ _).2 ⟨decoded, stored.flip⟩
  exact readSets_decoded calm (both.flip.imp fun path part h => ⟨_, h.2, h.1⟩)

/-- Files that are stored in descriptor sets, split among them in any way, come back as they were and in order, what
is absent apart from what is empty. No entry of a file is absent, its messages are nested fewer than 9000 deep, and a
set is not longer than a length of 64 bits can tell. -/
theorem sets_give_stored {request : Request} (calm : request.cancelled = false) {paths : List Bytes} (listed : paths ≠ [])
    {parts : List (List File)}
    (stored : List.Forall₂ (fun path part => request.disk.read path = .ok (Wire.Encode.set part)) paths parts)
    (whole : ∀ part ∈ parts, ∀ f ∈ part, f.whole = true)
    (high : ∀ part ∈ parts, ∀ f ∈ part, heightIn f.messages < 9000)
    (short : ∀ part ∈ parts, (Wire.Encode.set part).length < Wire.wordLimit) :
    ∃ source, sets paths = .ok source ∧ source request = .ok (parts.flatten.map some) := by
  have decoded : ∀ part ∈ parts, Wire.decodeSet (Wire.Encode.set part) = .ok part := by
    intro part hpart
    refine Wire.decodeSet_set (fun f hf => ?_) (whole part hpart) (short part hpart)
    have := high part hpart f hf
    unfold Wire.maxDepth
    omega
  refine ⟨_, if_neg (by simpa using listed), ?_⟩
  rw [readSets_set calm stored decoded]
  rfl

private def crate : File where
  name := some (utf8 "market/crate.proto")
  package := some []
  dialect := some [0xff, 0x00]
  dependencies := [[], utf8 "market/stall.proto"]
  weakIndices := [-1]
  messages := [some {
    name := some (utf8 "Crate")
    fields := [some { name := some [], number := some (-2147483648), oneofIndex := some 0 }, some {}]
    nested := [some { nested := [some { enums := [some { values := [some { number := some (-1) }] }] }] }]
    oneofs := [some {}] }]
  services := [some {}]

private def market : Disk where
  nodes := [([utf8 "full"], .file (Wire.Encode.set [crate, {}, crate])), ([utf8 "bare"], .file (Wire.Encode.set []))]

theorem sets_give_stored_market : ∃ source, sets [utf8 "bare", utf8 "full"] = .ok source ∧
    source { disk := market } = .ok [some crate, some {}, some crate] := by
  have stored : List.Forall₂ (fun path part => market.read path = .ok (Wire.Encode.set part))
      [utf8 "bare", utf8 "full"] [[], [crate, {}, crate]] :=
    .cons (by decide +kernel) (.cons (by decide +kernel) .nil)
  have whole : ∀ part ∈ [[], [crate, {}, crate]], ∀ f ∈ part, f.whole = true := by decide +kernel
  have high : ∀ part ∈ [[], [crate, {}, crate]], ∀ f ∈ part, heightIn f.messages < 9000 := by decide +kernel
  have short : ∀ part ∈ [[], [crate, {}, crate]], (Wire.Encode.set part).length < Wire.wordLimit := by decide +kernel
  exact sets_give_stored rfl (by simp) stored whole high short

/-! ## Sets that are joined -/

section
variable {request : Request} {entries : List (Bytes × Bytes)}

/-- A content of which the files can be read. -/
def Decodes (content : Bytes) : Prop := ∃ files, Wire.decodeSet content = .ok files

theorem decodeSet_joined (decoded : ∀ x ∈ entries, Decodes x.2) :
    ∃ parts, List.Forall₂ (fun x part => Wire.decodeSet x.2 = .ok part) entries parts ∧
      Wire.decodeSet (entries.flatMap Prod.snd) = .ok parts.flatten := by
  induction entries with
  | nil => exact ⟨[], .nil, rfl⟩
  | cons x entries ih =>
    obtain ⟨⟨files, hfiles⟩, hothers⟩ := List.forall_mem_cons.1 decoded
    obtain ⟨parts, hparts, hjoined⟩ := ih hothers
    refine ⟨files :: parts, .cons hfiles hparts, ?_⟩
    rw [List.flatMap_cons, List.flatten_cons]
    exact Wire.decodeSet_append hfiles hjoined

/-- Of the contents that cannot be read the first one counts. -/
theorem readSets_undecodable (calm : request.cancelled = false)
    (stored : ∀ x ∈ entries, request.disk.read x.1 = .ok x.2) (undecoded : ¬ ∀ x ∈ entries, Decodes x.2) :
    ∃ before path content after e, entries = before ++ (path, content) :: after ∧ (∀ x ∈ before, Decodes x.2) ∧
      Wire.decodeSet content = .error e ∧
      readSets request (entries.map Prod.fst) = .error (.undecodableSet path e) := by
  induction entries with
  | nil => simp at undecoded
  | cons x entries ih =>
    obtain ⟨hread, hothers⟩ := List.forall_mem_cons.1 stored
    cases hfiles : Wire.decodeSet x.2 with
    | error e => exact ⟨[], x.1, x.2, entries, e, rfl, by simp, hfiles, by simp [readSets, calm, hread, hfiles]⟩
    | ok files =>
      have later : ¬ ∀ x ∈ entries, Decodes x.2 := fun h =>
        undecoded (List.forall_mem_cons.2 ⟨⟨files, hfiles⟩, h⟩)
      obtain ⟨before, path, content, after, e, rfl, hbefore, herror, hsets⟩ := ih hothers later
      refine ⟨x :: before, path, content, after, e, rfl, List.forall_mem_cons.2 ⟨⟨files, hfiles⟩, hbefore⟩, herror, ?_⟩
      simp only [List.map_cons, readSets, calm, hread, hfiles, hsets]
      rfl

end

/-- Descriptor sets on disk, of any bytes. If each of them can be read, they give the files of each in turn, and a
single set with all their bytes, wherever it stands, gives the same. If one cannot be read, they give no files, and the
error names the first such set. -/
theorem sets_joined {request : Request} (calm : request.cancelled = false) {entries : List (Bytes × Bytes)}
    (listed : entries ≠ []) (stored : ∀ x ∈ entries, request.disk.read x.1 = .ok x.2) :
    ∃ source, sets (entries.map Prod.fst) = .ok source ∧
    ((∀ x ∈ entries, Decodes x.2) →
      ∃ parts, List.Forall₂ (fun x part => Wire.decodeSet x.2 = .ok part) entries parts ∧
        source request = .ok (parts.flatten.map some) ∧
        ∀ (disk : Disk) (path : Bytes), disk.read path = .ok (entries.flatMap Prod.snd) →
          ∃ single, sets [path] = .ok single ∧ single { disk } = source request) ∧
    ((¬ ∀ x ∈ entries, Decodes x.2) →
      ∃ before path content after e, entries = before ++ (path, content) :: after ∧ (∀ x ∈ before, Decodes x.2) ∧
        Wire.decodeSet content = .error e ∧ source request = .error (.undecodableSet path e) ∧
        utf8 "decode descriptor set " ++ Text.quote path <+: (SourceError.undecodableSet path e).message) := by
  refine ⟨_, if_neg (by simpa using listed), fun decoded => ?_, fun undecoded => ?_⟩
  · obtain ⟨parts, hparts, hjoined⟩ := decodeSet_joined decoded
    have several : readSets request (entries.map Prod.fst) = .ok parts.flatten := by
      apply readSets_decoded calm
      rw [List.forall₂_map_left_iff]
      have both := (List.forall₂_and_left _ _).2 ⟨stored, hparts⟩
      exact both.imp fun x part h => ⟨x.2, h.1, h.2⟩
    refine ⟨parts, hparts, by rw [several]; rfl, fun disk path hread => ⟨_, rfl, ?_⟩⟩
    have single : readSets { disk } [path] = .ok [parts.flatten].flatten :=
      readSets_decoded rfl (.cons ⟨_, hread, hjoined⟩ .nil)
    rw [single, several, List.flatten_singleton]
  · obtain ⟨before, path, content, after, e, rfl, hbefore, herror, hsets⟩ := readSets_undecodable calm stored undecoded
    refine ⟨before, path, content, after, e, rfl, hbefore, herror, by rw [hsets]; rfl, ?_⟩
    rw [SourceError.message, List.append_assoc _ (utf8 ": ")]
    exact List.prefix_append _ _

/-- A set with a group inside a group before its file. -/
private def spice : Bytes := [0x3b, 0x08, 0x05, 0x13, 0x14, 0x3c, 0x0a, 0x03, 0x0a, 0x01, 0x61]

/-- A set with a number where files stand, before its file. -/
private def sugar : Bytes := [0x08, 0x07, 0x0a, 0x03, 0x0a, 0x01, 0x62]

private def pantry : Disk where
  nodes := [([utf8 "spice"], .file spice), ([utf8 "sugar"], .file sugar), ([utf8 "jar"], .file (spice ++ sugar)),
    ([utf8 "torn"], .file [0x0a, 0x03, 0x0a]), ([utf8 "void"], .file [0x00])]

theorem sets_joined_pantry :
    (∃ several single, sets [utf8 "spice", utf8 "sugar"] = .ok several ∧ sets [utf8 "jar"] = .ok single ∧
      several { disk := pantry } = .ok [some { name := some (utf8 "a") }, some { name := some (utf8 "b") }] ∧
      single { disk := pantry } = several { disk := pantry }) ∧
    ∃ several, sets [utf8 "spice", utf8 "torn", utf8 "void"] = .ok several ∧
      several { disk := pantry } = .error (.undecodableSet (utf8 "torn") .malformed) := by
  have stored : ∀ x ∈ [(utf8 "spice", spice), (utf8 "sugar", sugar)], pantry.read x.1 = .ok x.2 := by decide +kernel
  have stored' : ∀ x ∈ [(utf8 "spice", spice), (utf8 "torn", [0x0a, 0x03, 0x0a]), (utf8 "void", [0x00])],
      pantry.read x.1 = .ok x.2 := by decide +kernel
  obtain ⟨several, hseveral, fine, -⟩ := @sets_joined { disk := pantry } rfl _ (by simp) stored
  obtain ⟨faulty, hfaulty, -, failing⟩ := @sets_joined { disk := pantry } rfl _ (by simp) stored'
  have decoded : ∀ x ∈ [(utf8 "spice", spice), (utf8 "sugar", sugar)], Decodes x.2 := by
    simp only [List.forall_mem_cons]
    exact ⟨⟨_, rfl⟩, ⟨_, rfl⟩, by simp⟩
  have undecoded : ¬ ∀ x ∈ [(utf8 "spice", spice), (utf8 "torn", [0x0a, 0x03, 0x0a]), (utf8 "void", [0x00])],
      Decodes x.2 := by
    intro h
    obtain ⟨files, hfiles⟩ := h (utf8 "torn", [0x0a, 0x03, 0x0a]) (by simp)
    cases hfiles
  obtain ⟨-, -, -, joined⟩ := fine decoded
  obtain ⟨single, hsingle, hjar⟩ := joined pantry (utf8 "jar") (by decide +kernel)
  obtain ⟨-, path, -, -, e, -, -, -, hreport, -⟩ := failing undecoded
  cases hseveral
  cases hfaulty
  refine ⟨⟨_, single, rfl, hsingle, rfl, hjar⟩, _, rfl, ?_⟩
  have hfirst : SourceError.undecodableSet path e = .undecodableSet (utf8 "torn") .malformed :=
    Except.error.inj hreport.symm
  exact hreport.trans (congrArg Except.error hfirst)

end Source
end ProtoRecovery
