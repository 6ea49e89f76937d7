import Mathlib.Data.List.ReduceOption
import ProtoRecovery.Proofs.Schema.Tree
import ProtoRecovery.Render

/-! # Absent entries and blank imports leave no trace in what is rendered -/
namespace ProtoRecovery
open Outline

namespace Schema

/-- The entries that are present. -/
def Entries.present {α : Type} (xs : Entries α) : Entries α := xs.filter Option.isSome

def EnumType.compact (e : EnumType) : EnumType := { e with values := Entries.present e.values }

def compactEnums (enums : Entries EnumType) : Entries EnumType :=
  (Entries.present enums).map (Option.map EnumType.compact)

mutual
/-- A message without absent entries, at any depth. The oneofs stay, as fields refer to them by position. -/
def Message.compact : Message → Message
  | ⟨name, fields, nested, enums, oneofs, extensions, mapEntry, features⟩ =>
    ⟨name, Entries.present fields, compactIn nested, compactEnums enums, oneofs, extensions, mapEntry, features⟩
def compactIn : List (Option Message) → List (Option Message)
  | [] => []
  | none :: r => compactIn r
  | some m :: r => some m.compact :: compactIn r
end

def namesFile (path : Bytes) : Bool := !Text.isBlankText path

/-- The index that a dependency has among those that are not blank. -/
def newIndex? (dependencies : List Bytes) (index : Int32) : Option Int32 := do
  let path ← if index < 0 then none else dependencies[index.toNatClampNeg]?
  if namesFile path then some (.ofNat ((dependencies.take index.toNatClampNeg).countP namesFile)) else none

/-- A file without absent entries and blank dependencies. Indices of dependencies follow; those that
lead to none are dropped. -/
def File.compact (f : File) : File :=
  { f with
    dependencies := f.dependencies.filter namesFile
    publicIndices := f.publicIndices.filterMap (newIndex? f.dependencies)
    weakIndices := f.weakIndices.filterMap (newIndex? f.dependencies)
    messages := compactIn f.messages
    enums := compactEnums f.enums
    services := Entries.present f.services }

theorem reduceOption_present {α : Type} (xs : Entries α) : (Entries.present xs).reduceOption = xs.reduceOption := by
  induction xs with
  | nil => rfl
  | cons x xs ih =>
    cases x with
    | none => exact ih
    | some a => exact congrArg (a :: ·) ih

theorem reduceOption_compactEnums (enums : Entries EnumType) :
    (compactEnums enums).reduceOption = enums.reduceOption.map EnumType.compact := by
  rw [compactEnums, List.reduceOption_map, reduceOption_present]

/-! ### Nothing absent is left -/

structure Message.Full (m : Message) : Prop where
  fields : none ∉ m.fields
  nested : none ∉ m.nested
  enums : none ∉ m.enums
  values : ∀ e ∈ m.enums.reduceOption, none ∉ e.values

/-- No entry of a file is absent, at any depth, and no dependency is blank. -/
structure File.Full (f : File) : Prop where
  messages : none ∉ f.messages
  enums : none ∉ f.enums
  values : ∀ e ∈ f.enums.reduceOption, none ∉ e.values
  services : none ∉ f.services
  dependencies : ∀ path ∈ f.dependencies, Text.isBlankText path = false
  located : ∀ x ∈ f.located, x.2.Full

theorem none_notMem_present {α : Type} (xs : Entries α) : none ∉ Entries.present xs := fun h =>
  Bool.noConfusion (List.mem_filter.1 h).2

theorem none_notMem_compactIn (ms : List (Option Message)) : none ∉ compactIn ms := by
  induction ms with
  | nil => exact List.not_mem_nil
  | cons m ms ih =>
    cases m with
    | none => exact ih
    | some m => simpa [compactIn] using ih

theorem none_notMem_compactEnums (enums : Entries EnumType) : none ∉ compactEnums enums := by
  intro h
  obtain ⟨e, he, hnone⟩ := List.mem_map.1 h
  rw [Option.map_eq_none_iff.1 hnone] at he
  exact none_notMem_present enums he

theorem none_notMem_values (enums : Entries EnumType) : ∀ e ∈ (compactEnums enums).reduceOption, none ∉ e.values := by
  intro e he
  rw [reduceOption_compactEnums] at he
  obtain ⟨e', -, rfl⟩ := List.mem_map.1 he
  exact none_notMem_present e'.values

theorem Message.full_compact (m : Message) : m.compact.Full := by
  obtain ⟨name, fields, nested, enums⟩ := m
  constructor
  · exact none_notMem_present fields
  · exact none_notMem_compactIn nested
  · exact none_notMem_compactEnums enums
  · exact none_notMem_values enums

mutual
/-- The messages of what is left are those that were there. -/
theorem Message.located_compact (path : List Bytes) : (m : Message) →
    m.compact.located path = (m.located path).map (Prod.map id Message.compact)
  | ⟨name, fields, nested, enums, oneofs, extensions, mapEntry, features⟩ => by
    have hnested := locatedIn_compactIn (path ++ [textOf name]) nested
    simp only [Message.compact, Message.located, hnested, List.map_cons, Prod.map, id]
theorem locatedIn_compactIn (path : List Bytes) : (ms : List (Option Message)) →
    locatedIn path (compactIn ms) = (locatedIn path ms).map (Prod.map id Message.compact)
  | [] => rfl
  | none :: r => locatedIn_compactIn path r
  | some m :: r => by
    rw [compactIn, locatedIn, locatedIn, List.map_append, m.located_compact path, locatedIn_compactIn path r]
end

theorem File.full_compact (f : File) : f.compact.Full where
  messages := none_notMem_compactIn f.messages
  enums := none_notMem_compactEnums f.enums
  values := none_notMem_values f.enums
  services := none_notMem_present f.services
  dependencies path hpath := by simpa [namesFile] using (List.mem_filter.1 hpath).2
  located x hx := by
    have hlocated : f.compact.located = f.located.map (Prod.map id Message.compact) :=
      locatedIn_compactIn [textOf f.package] f.messages
    rw [hlocated] at hx
    obtain ⟨y, -, rfl⟩ := List.mem_map.1 hx
    exact y.2.full_compact

end Schema

namespace Outline
open Schema

theorem ofEnum_compact (e : EnumType) : ofEnum e.compact = ofEnum e := by
  simp only [ofEnum, EnumType.compact, reduceOption_present]

theorem map_ofEnum_compactEnums (enums : Entries EnumType) :
    (compactEnums enums).reduceOption.map ofEnum = enums.reduceOption.map ofEnum := by
  simp only [reduceOption_compactEnums, List.map_map, Function.comp_def, ofEnum_compact]

theorem shapes_present (scope : Bytes) (oneofs : Entries Oneof) (fields : Entries Field) :
    shapes scope oneofs (Entries.present fields) = shapes scope oneofs fields := by
  simp only [shapes, reduceOption_present]

mutual
theorem ofMessage_compact (style : Style) (dialect scope : Bytes) : (m : Schema.Message) →
    ofMessage style dialect scope m.compact = ofMessage style dialect scope m
  | ⟨name, fields, nested, enums, oneofs, extensions, mapEntry, features⟩ => by
    have hnested := ofMessages_compactIn style dialect (qualify scope (textOf name)) nested
    simp only [Message.compact, ofMessage, shapes_present, hnested, map_ofEnum_compactEnums]
theorem ofMessages_compactIn (style : Style) (dialect scope : Bytes) : (ms : List (Option Schema.Message)) →
    ofMessages style dialect scope (compactIn ms) = ofMessages style dialect scope ms
  | [] => rfl
  | none :: r => ofMessages_compactIn style dialect scope r
  | some m :: r => by
    rw [compactIn, ofMessages, ofMessages, ofMessage_compact style dialect scope m,
      ofMessages_compactIn style dialect scope r]
end

section
variable {α : Type} {p : α → Bool}

/-- An entry that is kept has as many before it as were kept of those before it. -/
private theorem zipIdx_filter (pre r : List α) :
    (r.filter p).zipIdx (pre.countP p) =
      ((r.zipIdx pre.length).filter fun x => p x.1).map fun x => (x.1, ((pre ++ r).take x.2).countP p) := by
  induction r generalizing pre with
  | nil => rfl
  | cons a r ih =>
    have hstep := ih (pre ++ [a])
    simp only [List.append_assoc, List.singleton_append, List.length_append, List.length_singleton,
      List.countP_append] at hstep
    rw [List.zipIdx_cons]
    cases ha : p a <;> simpa [ha] using hstep

private theorem countP_take_lt {l : List α} {i j : Nat} {a : α} (ha : l[i]? = some a) (hp : p a = true) (hij : i < j) :
    (l.take i).countP p < (l.take j).countP p := by
  have hsucc : (l.take (i + 1)).countP p = (l.take i).countP p + 1 := by
    simp [List.take_add_one, ha, hp]
  have hle : (l.take (i + 1)).countP p ≤ (l.take j).countP p :=
    (List.take_prefix_take_left (by omega)).sublist.countP_le
  omega

end

private theorem ofNat_inj {m n : Nat} (hm : m < 2147483648) (hn : n < 2147483648)
    (h : Int32.ofNat m = Int32.ofNat n) : m = n := by
  rw [← Int32.toNatClampNeg_ofNat_of_lt hm, h, Int32.toNatClampNeg_ofNat_of_lt hn]

section
variable {dependencies : List Bytes} {path : Bytes} {n : Nat}

theorem newIndex?_eq_some {i j : Int32} : newIndex? dependencies i = some j ↔ 0 ≤ i ∧ ∃ path,
    dependencies[i.toNatClampNeg]? = some path ∧ namesFile path = true ∧
      .ofNat ((dependencies.take i.toNatClampNeg).countP namesFile) = j := by
  unfold newIndex?
  by_cases hi : i < 0
  · simp [hi, Int32.not_le.2 hi]
  · simp [hi, Int32.not_lt.1 hi, Option.bind_eq_some_iff]

/-- The new indices lead to the same dependencies as the old ones. -/
theorem contains_newIndex (indices : List Int32) (hlen : dependencies.length < 2147483648)
    (hpath : dependencies[n]? = some path) (hnamed : namesFile path = true) :
    (indices.filterMap (newIndex? dependencies)).contains (Int32.ofNat ((dependencies.take n).countP namesFile)) =
      indices.contains (Int32.ofNat n) := by
  have hrank (k : Nat) : (dependencies.take k).countP namesFile < 2147483648 := by
    have := List.countP_le_length (p := namesFile) (l := dependencies.take k)
    have := List.length_take_le' k dependencies
    omega
  obtain ⟨hn, -⟩ := List.getElem?_eq_some_iff.1 hpath
  rw [Bool.eq_iff_iff, List.contains_iff_mem, List.contains_iff_mem, List.mem_filterMap]
  constructor
  · rintro ⟨i, hi, hnew⟩
    obtain ⟨hpos, q, hq, hqnamed, heq⟩ := newIndex?_eq_some.1 hnew
    have hcount := ofNat_inj (hrank _) (hrank _) heq
    have hin : i.toNatClampNeg = n := by
      rcases Nat.lt_trichotomy i.toNatClampNeg n with hlt | heq | hgt
      · have := countP_take_lt hq hqnamed hlt
        omega
      · exact heq
      · have := countP_take_lt hpath hnamed hgt
        omega
    rwa [← hin, Int32.ofNat_toNatClampNeg i hpos]
  · intro hi
    have hto : (Int32.ofNat n).toNatClampNeg = n := Int32.toNatClampNeg_ofNat_of_lt (by omega)
    refine ⟨_, hi, newIndex?_eq_some.2 ⟨Int32.zero_le_ofNat_of_lt (by omega), path, ?_, hnamed, ?_⟩⟩
    · rwa [hto]
    · rw [hto]

end

theorem imports_compact (style : Style) {f : Schema.File} (h : f.dependencies.length < 2147483648) :
    imports style f.compact = imports style f := by
  have hzip := zipIdx_filter (p := namesFile) [] f.dependencies
  simp only [List.countP_nil, List.length_nil, List.nil_append] at hzip
  have hkept : (f.compact.dependencies.zipIdx.filter fun x => namesFile x.1) = f.compact.dependencies.zipIdx := by
    refine List.filter_eq_self.2 fun x hx => ?_
    exact (List.mem_filter.1 (List.fst_mem_of_mem_zipIdx hx)).2
  unfold imports
  change (f.compact.dependencies.zipIdx.filter fun x => namesFile x.1).map _ =
    (f.dependencies.zipIdx.filter fun x => namesFile x.1).map _
  rw [hkept, show f.compact.dependencies = f.dependencies.filter namesFile from rfl, hzip, List.map_map]
  refine List.map_congr_left fun x hx => ?_
  obtain ⟨hmem, hnamed⟩ := List.mem_filter.1 hx
  have hpath := List.mem_zipIdx_iff_getElem?.1 hmem
  simp only [Function.comp, Schema.File.compact, contains_newIndex _ h hpath hnamed]

theorem ofFile_compact (style : Style) {f : Schema.File} (h : f.dependencies.length < 2147483648) :
    ofFile style f.compact = ofFile style f := by
  have himports := imports_compact style h
  unfold ofFile
  rw [himports]
  simp only [Schema.File.compact, ofMessages_compactIn, map_ofEnum_compactEnums, reduceOption_present]
  rfl

end Outline

/-- Without its absent entries and blank dependencies, a file is rendered as the
same text, or fails with the same error. -/
theorem render_compact (o : RenderOptions) {f : Schema.File} (h : f.dependencies.length < 2147483648) :
    f.compact.Full ∧ render o f.compact = render o f := by
  refine ⟨f.full_compact, ?_⟩
  unfold render
  rw [ofFile_compact o.toStyle h]
  rfl

private def gaps : Schema.File where
  name := some (utf8 "gaps.proto")
  dependencies := [utf8 "\t", utf8 "a.proto", utf8 "", utf8 "b.proto", utf8 " ", utf8 "c.proto"]
  publicIndices := [0, 5, -1]
  weakIndices := [7, 1, 2, 1]
  services := [none]
  enums := [none, some { name := some (utf8 "Kind"), values := [none, some { name := some (utf8 "ANY") }, none] }]
  messages := [none, some {
    name := some (utf8 "Box")
    nested := [none, some { name := some (utf8 "Lid"), enums := [none] }]
    oneofs := [none, some { name := some (utf8 "seal") }]
    fields := [none, some { name := some (utf8 "wax"), number := some 1, type := some 8, oneofIndex := some 1 }, none] }]

/-- The file without its gaps, in which the indices of the dependencies that stay are counted anew. -/
private def filled : Schema.File where
  name := some (utf8 "gaps.proto")
  dependencies := [utf8 "a.proto", utf8 "b.proto", utf8 "c.proto"]
  publicIndices := [2]
  weakIndices := [0, 0]
  enums := [some { name := some (utf8 "Kind"), values := [some { name := some (utf8 "ANY") }] }]
  messages := [some {
    name := some (utf8 "Box")
    nested := [some { name := some (utf8 "Lid") }]
    oneofs := [none, some { name := some (utf8 "seal") }]
    fields := [some { name := some (utf8 "wax"), number := some 1, type := some 8, oneofIndex := some 1 }] }]

theorem render_compact_gaps : gaps.dependencies.length < 2147483648 ∧ gaps.compact = filled ∧ gaps.compact.Full ∧
    render {} gaps = .ok (
      ["import weak \"a.proto\";", "import \"b.proto\";", "import public \"c.proto\";", "", "enum Kind \x7b",
        "    ANY = 0;", "\x7d", "", "message Box \x7b", "    optional bool wax = 1;", "", "    message Lid \x7b",
        "    \x7d", "\x7d"].flatMap fun line => utf8 line ++ [Bytes.newline]) ∧
    render {} gaps.compact = render {} gaps := by
  have hlen : gaps.dependencies.length < 2147483648 := by decide
  obtain ⟨hfull, hrender⟩ := render_compact {} hlen
  exact ⟨hlen, rfl, hfull, by decide +kernel, hrender⟩

end ProtoRecovery
