import ProtoRecovery.Proofs.Outline.Named
import ProtoRecovery.Proofs.Source.Fields

/-! # Settled outlines: compiling one gives a file with the same outline -/
namespace ProtoRecovery.Compile
open Schema Outline Link

/-- An item that compiling does not change: only optional fields may lack a label, where that is
what a field is without one, and a oneof has more than one member. -/
def Settles (dialect : Bytes) : Item → Prop
  | .field l => IsSettledType l.type ∧ (l.label = none → dialect = proto3)
  | .oneof _ members => 2 ≤ members.length ∧ ∀ l ∈ members, IsSettledType l.type ∧ l.label = none

private theorem reduceOption_map_some {α β : Type} (g : α → β) (xs : List α) :
    (xs.map fun x => some (g x)).reduceOption = xs.map g := by
  simp [List.reduceOption, List.filterMap_map]

private theorem bind_of_ok {ε α β : Type} {x : Except ε α} {a : α} {k : α → Except ε β} {r : Except ε β}
    (hx : x = .ok a) (hk : k a = r) : (x >>= k) = r := by
  rw [hx]
  exact hk

private theorem oneofAt?_ofNat {oneofs : Entries Oneof} {k : Nat} (h : k < 2147483648) :
    oneofAt? oneofs (Int32.ofNat k) = (oneofs[k]?).join := by
  have hpos : ¬Int32.ofNat k < 0 := Int32.not_lt.2 (Int32.zero_le_ofNat_of_lt h)
  rw [oneofAt?, if_neg hpos, Int32.toNatClampNeg_ofNat_of_lt h]

private theorem ofNat_inj {a b : Nat} (ha : a < 4294967296) (hb : b < 4294967296)
    (h : Int32.ofNat a = Int32.ofNat b) : a = b := by
  have hn := congrArg (fun i : Int32 => i.toBitVec.toNat) h
  simp only [Int32.toBitVec_ofNat', BitVec.toNat_ofNat] at hn
  omega

section
variable {visible : List TypeName} {place : Place} {lone : FieldLine → Bytes} {dialect : Bytes} {items : List Item}

theorem index?_shapesFrom (h : ∀ i ∈ items, Settles dialect i) (w u : Nat) :
    (shapesFrom (linkedField visible place) dialect w u items).filterMap Shape.index? =
      (numbers dialect w u items).map Int32.ofNat := by
  induction items generalizing w u with
  | nil => rfl
  | cons i items ih =>
    obtain ⟨hi, hitems⟩ := List.forall_mem_cons.1 h
    cases i with
    | oneof name members =>
      obtain ⟨l, ms, rfl⟩ := List.exists_cons_of_length_pos (show 0 < members.length by have := hi.1; omega)
      simp only [shapesFrom, numbers, List.map_cons, ← ih hitems]
      rfl
    | field l =>
      unfold shapesFrom numbers
      split
      · rw [List.map_cons, ← ih hitems]
        rfl
      · exact ih hitems w u

theorem fits_shapesFrom {names tail : List Bytes} (h : ∀ i ∈ items, Settles dialect i) (w u : Nat)
    (hn : names.drop w = writtenNames items ++ tail) (hw : w + (writtenNames items).length ≤ 2147483648) :
    ∀ s ∈ shapesFrom (linkedField visible place) dialect w u items,
      s.Fits (names.map fun name => some { name := some name }) := by
  induction items generalizing w u with
  | nil => simp [shapesFrom]
  | cons i items ih =>
    obtain ⟨hi, hitems⟩ := List.forall_mem_cons.1 h
    cases i with
    | oneof name members =>
      rw [writtenNames_oneof] at hn hw
      rw [List.length_cons] at hw
      have hname : names[w]? = some name := by
        have := congrArg List.head? hn
        simpa using this
      have hdrop : names.drop (w + 1) = writtenNames items ++ tail := by
        have := congrArg List.tail hn
        simpa using this
      rw [shapesFrom, List.forall_mem_cons]
      refine ⟨Shape.fits_group (i := Int32.ofNat w) (by simpa using hi.1) ?_ ?_, ih hitems (w + 1) u hdrop (by omega)⟩
      · intro f hf
        obtain ⟨x, -, rfl⟩ := List.mem_map.1 hf
        rfl
      · simp [oneofAt?_ofNat (show w < 2147483648 by omega), hname]
    | field l =>
      rw [writtenNames_field] at hn hw
      unfold shapesFrom
      split
      · exact List.forall_mem_cons.2 ⟨Shape.fits_lone _ rfl, ih hitems w (u + 1) hn hw⟩
      · exact List.forall_mem_cons.2 ⟨Shape.fits_plain _ rfl, ih hitems w u hn hw⟩

private theorem nodup_index? (h : ∀ i ∈ items, Settles dialect i)
    (hlen : (oneofNames lone dialect items).length ≤ 2147483648) :
    ((shapesFrom (linkedField visible place) dialect 0 (countOneofs items) items).filterMap Shape.index?).Nodup := by
  rw [oneofNames_eq, List.length_append, ← countOneofs_eq] at hlen
  have hbound : ∀ k ∈ numbers dialect 0 (countOneofs items) items, k < 4294967296 := by
    intro k hk
    have := mem_numbers lone hk
    rw [← countOneofs_eq] at this
    omega
  rw [index?_shapesFrom h]
  refine List.Nodup.map_on ?_ (nodup_numbers (by rw [countOneofs_eq, Nat.zero_add]))
  intro a ha b hb hab
  exact ofNat_inj (hbound a ha) (hbound b hb) hab

variable (visible place) in
/-- The shapes of compiled items are the ones they were compiled to. -/
theorem shapes_compiled (h : ∀ i ∈ items, Settles dialect i)
    (hlen : (oneofNames lone dialect items).length ≤ 2147483648) (scope : Bytes) :
    shapes scope ((oneofNames lone dialect items).map fun name => some { name := some name })
        ((fieldsOf dialect 0 (countOneofs items) items).map fun f => some (normalField visible place f)) =
      .ok (shapesFrom (linkedField visible place) dialect 0 (countOneofs items) items) := by
  have hwritten : 0 + (writtenNames items).length ≤ 2147483648 := by
    rw [oneofNames_eq, List.length_append] at hlen
    omega
  have hfits : ∀ s ∈ shapesFrom (linkedField visible place) dialect 0 (countOneofs items) items,
      s.Fits ((oneofNames lone dialect items).map fun name => some { name := some name }) :=
    fits_shapesFrom h 0 _ (oneofNames_eq lone dialect items) hwritten
  have hgather := gather_flatMap_fields hfits (nodup_index? h hlen)
  have hcheck : ∀ f ∈ (shapesFrom (linkedField visible place) dialect 0 (countOneofs items) items).flatMap Shape.fields,
      oneofFault ((oneofNames lone dialect items).map fun name => some { name := some name })
        (qualify scope (textOf f.name)) f = none := by
    intro f hf
    rw [oneofFault_eq_none]
    intro i hi
    obtain ⟨s, hs, hfs⟩ := List.mem_flatMap.1 hf
    have hindex : i ∈ (numbers dialect 0 (countOneofs items) items).map Int32.ofNat := by
      rw [← index?_shapesFrom h]
      exact List.mem_filterMap.2 ⟨s, hs, ((hfits s hs).fields f hfs).symm.trans hi⟩
    obtain ⟨k, hk, rfl⟩ := List.mem_map.1 hindex
    have hlt : k < (oneofNames lone dialect items).length := by
      have := mem_numbers lone hk
      rw [← countOneofs_eq] at this
      rw [oneofNames_eq, List.length_append, ← countOneofs_eq]
      omega
    rw [oneofAt?_ofNat (by omega), List.getElem?_map, List.getElem?_eq_getElem hlt]
    exact ⟨_, rfl⟩
  unfold shapes
  simp only [reduceOption_map_some, map_fieldsOf, checkOneofs_eq, List.findSome?_eq_none_iff.2 hcheck, hgather]
  rfl

theorem fieldLine_linkedField {style : Style} (hs : style.typeNames = .qualified) (scope : Bytes)
    (label : Option Label) {k : Option Nat} {l : FieldLine} (ht : IsSettledType l.type) :
    fieldLine style scope label (linkedField visible place k l) = .ok { l with label } := by
  unfold fieldLine
  rw [typeToken_linkedField hs scope ht]
  rfl

private theorem mapM_fieldLine {style : Style} (hs : style.typeNames = .qualified) (scope : Bytes) (w : Nat)
    {members : List FieldLine} (h : ∀ l ∈ members, IsSettledType l.type ∧ l.label = none) :
    (members.map (linkedField visible place (some w))).mapM (fieldLine style scope none) = .ok members := by
  induction members with
  | nil => rfl
  | cons l members ih =>
    obtain ⟨⟨ht, hl⟩, hrest⟩ := List.forall_mem_cons.1 h
    have hline : ({ l with label := none } : FieldLine) = l := by rw [← hl]
    rw [List.map_cons, List.mapM_cons, fieldLine_linkedField hs scope none ht, hline, ih hrest]
    rfl

private theorem shownLabel_linkedField (hp : place.features = {}) (hd : place.dialect ≠ editions)
    (hdialect : dialect ≠ editions) {k : Option Nat} {l : FieldLine} (hl : l.label = none → dialect = proto3)
    (hlone : ¬isLone dialect l = true) : shownLabel dialect (linkedField visible place k l) = l.label := by
  unfold shownLabel
  rw [linkedField_label hp hd]
  cases hlabel : l.label with
  | none => simp [hl hlabel]
  | some label =>
    have hne : label = .optional → dialect ≠ proto3 := by
      rintro rfl rfl
      exact hlone (by simp [isLone, hlabel])
    cases label with
    | optional => simp [hne rfl, hdialect]
    | required => rfl
    | repeated => rfl

variable (visible) in
/-- What is compiled shows the items it was compiled from. -/
theorem mapM_item_shapesFrom {style : Style} (hs : style.typeNames = .qualified) (hp : place.features = {})
    (hd : place.dialect ≠ editions) (hdialect : dialect ≠ editions) (h : ∀ i ∈ items, Settles dialect i)
    (scope : Bytes) (w u : Nat) :
    (shapesFrom (linkedField visible place) dialect w u items).mapM (item style dialect scope) = .ok items := by
  induction items generalizing w u with
  | nil => rfl
  | cons i items ih =>
    obtain ⟨hi, hitems⟩ := List.forall_mem_cons.1 h
    cases i with
    | oneof name members =>
      rw [shapesFrom, List.mapM_cons, item, mapM_fieldLine hs scope w hi.2, ih hitems]
      rfl
    | field l =>
      obtain ⟨ht, hl⟩ := hi
      unfold shapesFrom
      split
      next hlone =>
        have hlabel : l.label = some .optional := by
          simp only [isLone, Bool.and_eq_true, beq_iff_eq] at hlone
          exact hlone.2
        have hline : ({ l with label := some .optional } : FieldLine) = l := by rw [← hlabel]
        rw [List.mapM_cons, item, fieldLine_linkedField hs scope _ ht, hline, ih hitems]
        rfl
      next hlone =>
        rw [List.mapM_cons, item, shownLabel_linkedField hp hd hdialect hl hlone,
          fieldLine_linkedField hs scope _ ht, ih hitems]
        rfl

end

/-- A message that compiling does not change: the numbers of its oneofs are all within range. -/
structure SettledMessage (dialect : Bytes) (m : Outline.Message) : Prop where
  items : ∀ i ∈ m.items, Settles dialect i
  oneofs : ∀ lone, (oneofNames lone dialect m.items).length ≤ 2147483648

private theorem ofEnum_enumOf (e : Outline.Enum) : ofEnum (normalEnum (enumOf e)) = e := by
  obtain ⟨name, values⟩ := e
  simp [ofEnum, normalEnum, enumOf, reduceOption_map_some, Function.comp_def]

private theorem map_ofEnum_compiled (enums : List Outline.Enum) :
    (enums.map fun e => some (normalEnum (enumOf e))).reduceOption.map ofEnum = enums := by
  rw [reduceOption_map_some, List.map_map]
  conv_rhs => rw [← List.map_id enums]
  exact List.map_congr_left fun e _ => ofEnum_enumOf e

/-- Where the fields of a compiled message stand. -/
def inside (outer : Place) (name : Bytes) : Place :=
  { dialect := outer.dialect, scope := qualify outer.scope name, features := Features.within {} outer.features }

theorem inside_features {outer : Place} (h : outer.features = {}) (name : Bytes) : (inside outer name).features = {} := by
  rw [inside, h]
  rfl

/-- A compiled message, once it is linked. -/
theorem normalMessage_messageOf (visible : List TypeName) (outer : Place) (naming : Naming) (dialect name : Bytes)
    (items : List Item) (nested : List Outline.Message) (enums : List Outline.Enum) :
    normalMessage visible outer (messageOf naming dialect ⟨name, items, nested, enums⟩) =
      { name := some name
        fields := (fieldsOf dialect 0 (countOneofs items) items).map fun f =>
          some (normalField visible (inside outer name) f)
        nested := normalMessages visible (inside outer name) (messagesOf naming dialect nested)
        enums := enums.map fun e => some (normalEnum (enumOf e))
        oneofs := (oneofNames (naming ⟨name, items, nested, enums⟩) dialect items).map fun name =>
          some { name := some name } } := by
  have hfields : normalFields visible (inside outer name) ((fieldsOf dialect 0 (countOneofs items) items).map some) =
      (fieldsOf dialect 0 (countOneofs items) items).map fun f => some (normalField visible (inside outer name) f) := by
    rw [normalFields, reduceOption_map_some, List.map_id']
  rw [messageOf, normalMessage]
  refine Schema.Message.mk.injEq .. |>.mpr ⟨rfl, hfields, rfl, ?_, ?_, rfl, rfl, rfl⟩
  · rw [reduceOption_map_some, List.map_map]
    rfl
  · rw [reduceOption_map_some, List.map_map]
    rfl

mutual
theorem ofMessage_compiled {style : Style} (hs : style.typeNames = .qualified) (visible : List TypeName)
    (naming : Naming) {dialect : Bytes} (hdialect : dialect ≠ editions) {outer : Place} (hf : outer.features = {})
    (hd : outer.dialect ≠ editions) (scope : Bytes) : (m : Outline.Message) →
    (∀ x ∈ m.all, SettledMessage dialect x) →
    ofMessage style dialect scope (normalMessage visible outer (messageOf naming dialect m)) = .ok m
  | ⟨name, items, nested, enums⟩, h => by
    rw [Outline.Message.all, List.forall_mem_cons] at h
    obtain ⟨⟨hitems, hlen⟩, hnested⟩ := h
    have hinside := inside_features hf name
    have hshapes := shapes_compiled visible (inside outer name) hitems (hlen (naming ⟨name, items, nested, enums⟩))
      (qualify scope name)
    have hshown := mapM_item_shapesFrom visible hs hinside hd hdialect hitems (qualify scope name) 0 (countOneofs items)
    have hrest := ofMessages_compiled hs visible naming hdialect hinside hd (qualify scope name) nested hnested
    rw [normalMessage_messageOf, ofMessage, map_ofEnum_compiled]
    exact bind_of_ok hshapes (bind_of_ok hshown (bind_of_ok hrest rfl))
theorem ofMessages_compiled {style : Style} (hs : style.typeNames = .qualified) (visible : List TypeName)
    (naming : Naming) {dialect : Bytes} (hdialect : dialect ≠ editions) {outer : Place} (hf : outer.features = {})
    (hd : outer.dialect ≠ editions) (scope : Bytes) : (ms : List Outline.Message) →
    (∀ x ∈ allIn ms, SettledMessage dialect x) →
    ofMessages style dialect scope (normalMessages visible outer (messagesOf naming dialect ms)) = .ok ms
  | [], _ => rfl
  | m :: ms, h => by
    rw [allIn, List.forall_mem_append] at h
    have hm := ofMessage_compiled hs visible naming hdialect hf hd scope m h.1
    have hms := ofMessages_compiled hs visible naming hdialect hf hd scope ms h.2
    rw [messagesOf, normalMessages, ofMessages]
    exact bind_of_ok hm (bind_of_ok hms rfl)
end

/-- An outline that compiling does not change. The oldest dialect has no heading; no two imports have
the same 32-bit position. -/
structure SettledFile (d : Option Bytes) (o : Outline.File) : Prop where
  dialect : d = none ∨ d = some proto3
  heading : o.heading = d.map .dialect
  package : o.package ≠ some []
  imports : ∀ i ∈ o.imports, i.access ≠ .weak ∧ Text.isBlankText i.path = false
  positions : o.imports.length ≤ 4294967296
  messages : ∀ m ∈ allIn o.messages, SettledMessage (textOf d) m

private theorem contains_indices {imports : List Import} (hlen : imports.length ≤ 4294967296) {i : Import} {n : Nat}
    (h : (i, n) ∈ imports.zipIdx) :
    (indices .reexported imports).contains (Int32.ofNat n) = (i.access == .reexported) := by
  have hget : ∀ {x m}, (x, m) ∈ imports.zipIdx → ∃ hm : m < imports.length, imports[m] = x := by
    intro x m hx
    exact List.getElem?_eq_some_iff.1 (List.mem_zipIdx_iff_getElem?.1 hx)
  obtain ⟨hn, hi⟩ := hget h
  rw [Bool.eq_iff_iff, List.contains_iff_mem, beq_iff_eq]
  constructor
  · intro hmem
    obtain ⟨⟨x, m⟩, hx, hxn⟩ := List.mem_map.1 hmem
    obtain ⟨hx, haccess⟩ := List.mem_filter.1 hx
    obtain ⟨hm, hxm⟩ := hget hx
    have hmn : m = n := ofNat_inj (by omega) (by omega) hxn
    subst hmn
    rw [← hi, hxm]
    simpa using haccess
  · intro haccess
    exact List.mem_map.2 ⟨(i, n), List.mem_filter.2 ⟨h, by simpa using haccess⟩, rfl⟩

/-- The imports of a compiled file are those it was compiled from. -/
theorem imports_compiled {style : Style} (hleads : style.importLeads = []) {imports : List Import}
    (h : ∀ i ∈ imports, i.access ≠ .weak ∧ Text.isBlankText i.path = false) (hlen : imports.length ≤ 4294967296)
    {g : Schema.File} (hd : g.dependencies = imports.map (·.path))
    (hp : g.publicIndices = indices .reexported imports) (hw : g.weakIndices = []) :
    Outline.imports style g = imports := by
  have hall : ∀ p ∈ (imports.map (·.path)).zipIdx, (!Text.isBlankText p.1) = true := by
    intro p hp
    obtain ⟨i, hi, he⟩ := List.mem_map.1 (List.fst_mem_of_mem_zipIdx hp)
    rw [← he, (h i hi).2]
    rfl
  unfold Outline.imports
  rw [hd, hp, hw, hleads, List.filter_eq_self.2 hall, List.zipIdx_map, List.map_map]
  conv_rhs => rw [← List.zipIdx_map_fst 0 imports]
  refine List.map_congr_left ?_
  rintro ⟨i, n⟩ hin
  obtain ⟨access, path⟩ := i
  have hweak := (h _ (List.fst_mem_of_mem_zipIdx hin)).1
  simp only [Function.comp_apply, Prod.map_apply, id_eq, contains_indices hlen hin, stripLead]
  cases access with
  | ordinary => rfl
  | reexported => rfl
  | weak => exact absurd rfl hweak

private theorem fileOf_dialect {d : Option Bytes} (hd : d = none ∨ d = some proto3) {o : Outline.File}
    (h : o.heading = d.map .dialect) (naming : Naming) (name : Bytes) :
    (fileOf naming name o).dialect = d ∧ (fileOf naming name o).messages = messagesOf naming (textOf d) o.messages := by
  have hne : proto3 ≠ proto2 := by decide
  unfold fileOf
  rw [h]
  rcases hd with rfl | rfl
  · exact ⟨rfl, rfl⟩
  · simp [hne, textOf]

private theorem normalFile_dialect {d : Option Bytes} (hd : d = none ∨ d = some proto3) (visible : List TypeName)
    {f : Schema.File} (h : f.dialect = d) : (normalFile visible f).dialect = d := by
  unfold normalFile
  rw [h]
  rcases hd with rfl | rfl <;> rfl

private theorem normalFile_package (visible : List TypeName) {f : Schema.File} (h : f.package ≠ some []) :
    (normalFile visible f).package = f.package := by
  unfold normalFile
  cases hp : f.package with
  | none => rfl
  | some p =>
    have hne : p ≠ [] := fun e => h (e ▸ hp)
    simp [hne]

/-- A settled outline comes back from the file that it describes, whatever names are visible to that file. -/
theorem ofFile_compiled {style : Style} (hs : style.typeNames = .qualified) (hleads : style.importLeads = [])
    {d : Option Bytes} {o : Outline.File} (h : SettledFile d o) (visible : List TypeName) (naming : Naming)
    (name : Bytes) : ofFile style (normalFile visible (fileOf naming name o)) = .ok o := by
  obtain ⟨hdialect, hmessages⟩ := fileOf_dialect h.dialect h.heading naming name
  have hne : textOf d ≠ editions := by
    rcases h.dialect with hd | hd <;> rw [hd] <;> decide
  set g := normalFile visible (fileOf naming name o) with hg
  have hgd : g.dialect = d := normalFile_dialect h.dialect visible hdialect
  have hgp : g.package = o.package := normalFile_package visible (f := fileOf naming name o) h.package
  have himports : Outline.imports style g = o.imports :=
    imports_compiled hleads h.imports h.positions rfl rfl rfl
  have hheading : Outline.heading g = o.heading := by
    rw [Outline.heading, hgd, h.heading]
    rcases h.dialect with hd | hd <;> rw [hd] <;> rfl
  have hservices : (g.services.reduceOption.map fun s => textOf s.name) = o.services := by
    rw [hg, normalFile, fileOf]
    simp [reduceOption_map_some, normalService, Function.comp_def]
  have henums : g.enums.reduceOption.map ofEnum = o.enums := by
    have hge : g.enums = o.enums.map fun e => some (normalEnum (enumOf e)) := by
      rw [hg, normalFile, fileOf]
      simp only [reduceOption_map_some, List.map_map, Function.comp_def]
    rw [hge, map_ofEnum_compiled]
  have hshown : ofMessages style (textOf g.dialect) (textOf g.package) g.messages = .ok o.messages := by
    rw [hgd, hg, normalFile, hmessages, hdialect]
    exact ofMessages_compiled hs visible naming hne rfl hne _ o.messages h.messages
  rw [hgp] at hshown
  rw [ofFile, hheading, himports, hgp, hservices, henums]
  exact bind_of_ok hshown rfl

end ProtoRecovery.Compile
