import Mathlib.Data.List.Nodup
import Mathlib.Data.List.Perm.Basic
import ProtoRecovery.Proofs.Outline.View

/-! # Places: at which positions of a message the fields of a shape are declared

Fields may be equal, so a shape is followed by the positions of its fields. Every position stands
together with some others, and the shape of them all has its place at the first one. -/
namespace ProtoRecovery.Outline
open Schema

section
variable (fields : Entries Field)

/-- The field at a position, if one is present there. -/
def fieldAt? (k : Nat) : Option Field := (fields[k]?).join

def indexAt? (k : Nat) : Option Int32 := (fieldAt? fields k).bind (·.oneofIndex)

/-- The positions at which fields are present. -/
def positions : List Nat := (List.range fields.length).filter fun k => (fieldAt? fields k).isSome

/-- The positions of the members of a oneof. -/
def positionsOf (index : Int32) : List Nat :=
  (List.range fields.length).filter fun k => indexAt? fields k = some index

/-- The positions of all fields that are shown with the one at a position. -/
def together (k : Nat) : List Nat :=
  match indexAt? fields k with
  | none => [k]
  | some i => positionsOf fields i

/-- The shape that has its place at a field when the field is the first of those shown with it. -/
def shapeAt (oneofs : Entries Oneof) (f : Field) : Shape :=
  match f.oneofIndex with
  | none => .plain f
  | some i => oneofShape oneofs fields.reduceOption f i

/-- The shape that has its place at a position, with the positions of its fields. -/
def placedAt? (oneofs : Entries Oneof) (k : Nat) : Option (Shape × List Nat) :=
  (fieldAt? fields k).bind fun f =>
    if (together fields k).head? = some k then some (shapeAt fields oneofs f, together fields k) else none

/-- All shapes with the positions of their fields, by the places they have. -/
def placed (oneofs : Entries Oneof) : List (Shape × List Nat) :=
  (List.range fields.length).filterMap (placedAt? fields oneofs)

end

section
variable {fields : Entries Field} {oneofs : Entries Oneof} {f : Field} {i : Int32} {j k : Nat} {x : Shape × List Nat}

theorem lt_of_fieldAt? (h : fieldAt? fields k = some f) : k < fields.length := by
  obtain ⟨hk, -⟩ := List.getElem?_eq_some_iff.1 (Option.join_eq_some_iff.1 h)
  exact hk

theorem mem_of_fieldAt? (h : fieldAt? fields k = some f) : f ∈ fields.reduceOption :=
  List.reduceOption_mem_iff.2 (List.mem_of_getElem? (Option.join_eq_some_iff.1 h))

theorem indexAt?_eq_some : indexAt? fields k = some i ↔ ∃ f, fieldAt? fields k = some f ∧ f.oneofIndex = some i :=
  Option.bind_eq_some_iff

theorem indexAt?_of_fieldAt? (h : fieldAt? fields k = some f) : indexAt? fields k = f.oneofIndex := by
  rw [indexAt?, h, Option.bind_some]

theorem mem_positions : k ∈ positions fields ↔ ∃ f, fieldAt? fields k = some f := by
  simp only [positions, List.mem_filter, List.mem_range, Option.isSome_iff_exists]
  exact ⟨And.right, fun ⟨f, h⟩ => ⟨lt_of_fieldAt? h, f, h⟩⟩

theorem mem_positionsOf : k ∈ positionsOf fields i ↔ indexAt? fields k = some i := by
  simp only [positionsOf, List.mem_filter, List.mem_range, decide_eq_true_eq]
  refine ⟨And.right, fun h => ⟨?_, h⟩⟩
  obtain ⟨f, hf, -⟩ := indexAt?_eq_some.1 h
  exact lt_of_fieldAt? hf

theorem nodup_positions : (positions fields).Nodup := List.nodup_range.filter _

theorem nodup_positionsOf : (positionsOf fields i).Nodup := List.nodup_range.filter _

/-- The first member of a oneof is the one that no other precedes. -/
theorem head?_positionsOf : (positionsOf fields i).head? = some k ↔
    indexAt? fields k = some i ∧ ∀ j < k, indexAt? fields j ≠ some i := by
  rw [positionsOf, List.head?_filter, List.find?_range_eq_some]
  simp only [decide_eq_true_eq, Bool.not_eq_eq_eq_not, Bool.not_true, decide_eq_false_iff_not, List.mem_range]
  constructor
  · rintro ⟨h, -, hfirst⟩
    exact ⟨h, hfirst⟩
  · rintro ⟨h, hfirst⟩
    obtain ⟨f, hf, -⟩ := indexAt?_eq_some.1 h
    exact ⟨h, lt_of_fieldAt? hf, hfirst⟩

variable (fields k) in
theorem mem_together_self : k ∈ together fields k := by
  unfold together
  split
  next => exact List.mem_singleton_self k
  next i hi => exact mem_positionsOf.2 hi

/-- Positions that stand together share all the others. -/
theorem together_eq (h : j ∈ together fields k) : together fields j = together fields k := by
  unfold together at h
  split at h
  next => rw [List.mem_singleton.1 h]
  next i hi =>
    have hj : indexAt? fields j = some i := mem_positionsOf.1 h
    simp only [together, hi, hj]

theorem nodup_together : (together fields k).Nodup := by
  unfold together
  split
  next => exact List.nodup_singleton k
  next => exact nodup_positionsOf

theorem mem_positions_of_together (hk : k ∈ positions fields) (h : j ∈ together fields k) : j ∈ positions fields := by
  unfold together at h
  split at h
  next => rwa [List.mem_singleton.1 h]
  next i hi =>
    obtain ⟨f, hf, -⟩ := indexAt?_eq_some.1 (mem_positionsOf.1 h)
    exact mem_positions.2 ⟨f, hf⟩

theorem placedAt?_eq_some : placedAt? fields oneofs k = some x ↔ ∃ f, fieldAt? fields k = some f ∧
    (together fields k).head? = some k ∧ x = (shapeAt fields oneofs f, together fields k) := by
  simp only [placedAt?, Option.bind_eq_some_iff, Option.ite_none_right_eq_some, Option.some.injEq, eq_comm (b := x)]

theorem placedAt?_absent (h : fieldAt? fields k = none) : placedAt? fields oneofs k = none := by
  rw [placedAt?, h, Option.bind_none]

theorem placedAt?_plain (hf : fieldAt? fields k = some f) (hi : f.oneofIndex = none) :
    placedAt? fields oneofs k = some (.plain f, [k]) := by
  have htogether : together fields k = [k] := by rw [together, indexAt?_of_fieldAt? hf, hi]
  rw [placedAt?, hf, Option.bind_some, htogether, List.head?_cons, if_pos rfl, shapeAt, hi]

variable (oneofs) in
theorem placedAt?_member (hf : fieldAt? fields k = some f) (hi : f.oneofIndex = some i) :
    placedAt? fields oneofs k = if (positionsOf fields i).head? = some k then
      some (oneofShape oneofs fields.reduceOption f i, positionsOf fields i) else none := by
  have htogether : together fields k = positionsOf fields i := by rw [together, indexAt?_of_fieldAt? hf, hi]
  rw [placedAt?, hf, Option.bind_some, htogether, shapeAt, hi]

theorem mem_placed : x ∈ placed fields oneofs ↔ ∃ k, placedAt? fields oneofs k = some x := by
  simp only [placed, List.mem_filterMap, List.mem_range]
  constructor
  · rintro ⟨k, -, h⟩
    exact ⟨k, h⟩
  · rintro ⟨k, h⟩
    obtain ⟨f, hf, -⟩ := placedAt?_eq_some.1 h
    exact ⟨k, lt_of_fieldAt? hf, h⟩

/-- A shape has its place at its first position. -/
theorem head?_of_placedAt? (h : placedAt? fields oneofs k = some x) : x.2.head? = some k := by
  obtain ⟨f, -, hhead, rfl⟩ := placedAt?_eq_some.1 h
  exact hhead

variable (oneofs) in
/-- Among the positions that stand with a field there is one where their shape has its place. -/
theorem exists_placed (h : k ∈ positions fields) : ∃ x ∈ placed fields oneofs, x.2 = together fields k := by
  obtain ⟨a, as, ha⟩ := List.exists_cons_of_ne_nil (List.ne_nil_of_mem (mem_together_self fields k))
  have hmem : a ∈ together fields k := by
    rw [ha]
    exact List.mem_cons_self
  obtain ⟨f, hf⟩ := mem_positions.1 (mem_positions_of_together h hmem)
  have he : together fields a = together fields k := together_eq hmem
  refine ⟨(shapeAt fields oneofs f, together fields a), mem_placed.2 ⟨a, placedAt?_eq_some.2 ⟨f, hf, ?_, rfl⟩⟩, he⟩
  rw [he, ha, List.head?_cons]

theorem nodup_placed : (placed fields oneofs).Nodup := by
  refine List.nodup_range.filterMap fun a b x hx hy => ?_
  have := (head?_of_placedAt? hx).symm.trans (head?_of_placedAt? hy)
  exact Option.some.inj this

/-- No field is at two places. -/
theorem eq_of_mem_placedAt? {a b : Nat} {x y : Shape × List Nat} (hx : placedAt? fields oneofs a = some x)
    (hy : placedAt? fields oneofs b = some y) (hkx : k ∈ x.2) (hky : k ∈ y.2) : a = b := by
  have ha := head?_of_placedAt? hx
  have hb := head?_of_placedAt? hy
  obtain ⟨f, -, -, rfl⟩ := placedAt?_eq_some.1 hx
  obtain ⟨g, -, -, rfl⟩ := placedAt?_eq_some.1 hy
  dsimp only at hkx hky ha hb
  rw [← together_eq hkx, together_eq hky, hb] at ha
  exact (Option.some.inj ha).symm

theorem nodup_placed_positions : ((placed fields oneofs).flatMap Prod.snd).Nodup := by
  rw [List.nodup_flatMap]
  constructor
  · intro x hx
    obtain ⟨k, hk⟩ := mem_placed.1 hx
    obtain ⟨f, -, -, rfl⟩ := placedAt?_eq_some.1 hk
    exact nodup_together
  · rw [placed, List.pairwise_filterMap]
    refine List.pairwise_lt_range.imp fun {a b} hab x hx y hy k hkx hky => ?_
    have := eq_of_mem_placedAt? hx hy hkx hky
    omega

theorem mem_placed_positions : k ∈ (placed fields oneofs).flatMap Prod.snd ↔ k ∈ positions fields := by
  rw [List.mem_flatMap]
  constructor
  · rintro ⟨x, hx, hk⟩
    obtain ⟨a, ha⟩ := mem_placed.1 hx
    obtain ⟨f, hf, -, rfl⟩ := placedAt?_eq_some.1 ha
    exact mem_positions_of_together (mem_positions.2 ⟨f, hf⟩) hk
  · intro hk
    obtain ⟨x, hx, he⟩ := exists_placed oneofs hk
    exact ⟨x, hx, he ▸ mem_together_self fields k⟩

/-- The positions of the shapes are those of the fields, each once. -/
theorem placed_perm : ((placed fields oneofs).flatMap Prod.snd).Perm (positions fields) :=
  (List.perm_ext_iff_of_nodup nodup_placed_positions nodup_positions).2 fun _ => mem_placed_positions

/-- The shapes follow each other as their first fields do. -/
theorem placed_ordered : (placed fields oneofs).Pairwise fun x y => ∀ a ∈ x.2.head?, ∀ b ∈ y.2.head?, a < b := by
  rw [placed, List.pairwise_filterMap]
  refine List.pairwise_lt_range.imp fun {a b} hab x hx y hy c hc d hd => ?_
  rw [head?_of_placedAt? hx] at hc
  rw [head?_of_placedAt? hy] at hd
  cases hc
  cases hd
  exact hab

end

section
variable (fields : Entries Field) (oneofs : Entries Oneof)

private theorem map_fieldAt?_range : (List.range fields.length).map (fieldAt? fields) = fields := by
  apply List.ext_getElem
  · simp
  · intro k _ hk
    simp [fieldAt?, List.getElem?_eq_getElem hk]

/-- A choice among the fields that are present is one among positions. -/
private theorem map_some_filter (p : Field → Bool) :
    (fields.reduceOption.filter p).map some =
      ((List.range fields.length).filter fun k => (fieldAt? fields k).any p).map (fieldAt? fields) := by
  have hfilter : (fields.reduceOption.filter p).map some = fields.filter (Option.any p) := by
    induction fields with
    | nil => rfl
    | cons o r ih =>
      cases o with
      | none => simpa [List.reduceOption_cons_of_none] using ih
      | some f => by_cases hf : p f <;> simp [List.reduceOption_cons_of_some, hf, ih]
  have hrange := List.filter_map (f := fieldAt? fields) (p := Option.any p) (l := List.range fields.length)
  rw [map_fieldAt?_range] at hrange
  rw [hfilter, hrange]
  rfl

theorem map_some_reduceOption : fields.reduceOption.map some = (positions fields).map (fieldAt? fields) := by
  have h := map_some_filter fields fun _ => true
  simpa [positions] using h

/-- The members of a oneof are the fields at its positions. -/
theorem map_some_membersOf (i : Int32) :
    (membersOf fields.reduceOption i).map some = (positionsOf fields i).map (fieldAt? fields) := by
  rw [membersOf, map_some_filter, positionsOf]
  congr 2
  funext k
  rw [indexAt?]
  cases fieldAt? fields k <;> simp [beq_eq_decide]

end

section
variable {fields : Entries Field} {oneofs : Entries Oneof}

/-- A shape holds the fields at its positions. -/
theorem fields_of_mem_placed {x : Shape × List Nat} (h : x ∈ placed fields oneofs) :
    x.1.fields.map some = x.2.map (fieldAt? fields) := by
  obtain ⟨k, hk⟩ := mem_placed.1 h
  obtain ⟨f, hf, -, rfl⟩ := placedAt?_eq_some.1 hk
  have hindex := indexAt?_of_fieldAt? hf
  unfold shapeAt together
  rw [hindex]
  cases hi : f.oneofIndex with
  | none => simp [Shape.fields, hf]
  | some i =>
    dsimp only
    rw [fields_oneofShape oneofs (mem_of_fieldAt? hf) hi, map_some_membersOf]

-- The oneofs placed already are those of the positions passed.
private theorem gather_eq_placed (r : Entries Field) {k : Nat} {seen : List Int32} (hr : fields.drop k = r)
    (hseen : ∀ i, seen.contains i ↔ ∃ j < k, indexAt? fields j = some i) :
    gather oneofs fields.reduceOption seen r.reduceOption =
      ((List.range' k r.length).filterMap (placedAt? fields oneofs)).map Prod.fst := by
  induction r generalizing k seen with
  | nil => rfl
  | cons o r ih =>
    have hk : fieldAt? fields k = o := by
      have h := congrArg (·[0]?) hr
      simp only [List.getElem?_drop, Nat.add_zero, List.getElem?_cons_zero] at h
      rw [fieldAt?, h, Option.join_some]
    have hr' : fields.drop (k + 1) = r := by rw [← List.tail_drop, hr, List.tail_cons]
    have hnext {seen' : List Int32} (h : ∀ i, seen'.contains i ↔ seen.contains i ∨ indexAt? fields k = some i) :
        ∀ i, seen'.contains i ↔ ∃ j < k + 1, indexAt? fields j = some i := by
      intro i
      rw [h i, hseen i, Nat.exists_lt_succ_right]
    rw [List.length_cons, List.range'_succ]
    cases o with
    | none =>
      have hindex : indexAt? fields k = none := by rw [indexAt?, hk, Option.bind_none]
      rw [List.reduceOption_cons_of_none, List.filterMap_cons_none (placedAt?_absent hk)]
      exact ih hr' (hnext (by simp [hindex]))
    | some f =>
      have hindex := indexAt?_of_fieldAt? hk
      rw [List.reduceOption_cons_of_some, gather]
      cases hi : f.oneofIndex with
      | none =>
        rw [hi] at hindex
        rw [List.filterMap_cons_some (placedAt?_plain hk hi), List.map_cons, ih hr' (hnext (by simp [hindex]))]
      | some i =>
        rw [hi] at hindex
        have hfirst : (positionsOf fields i).head? = some k ↔ ¬seen.contains i := by
          simp only [hindex, head?_positionsOf, hseen i, not_exists, not_and, true_and, ne_eq]
        have hplaced := placedAt?_member oneofs hk hi
        dsimp only
        split
        next hs =>
          rw [if_neg (not_not_intro hs ∘ hfirst.1)] at hplaced
          rw [List.filterMap_cons_none hplaced]
          refine ih hr' (hnext fun j => ?_)
          rw [hindex, Option.some.injEq]
          exact (or_iff_left_of_imp fun h => h ▸ hs).symm
        next hs =>
          rw [if_pos (hfirst.2 hs)] at hplaced
          rw [List.filterMap_cons_some hplaced, List.map_cons]
          refine congrArg _ (ih hr' (hnext fun j => ?_))
          rw [hindex, Option.some.injEq, List.contains_cons, Bool.or_eq_true, beq_iff_eq, or_comm, eq_comm (a := j)]

theorem shapesOf_eq_placed : shapesOf oneofs fields = (placed fields oneofs).map Prod.fst := by
  rw [shapesOf, gather_eq_placed fields (k := 0) (List.drop_zero ..) (by simp), placed, List.range_eq_range']

/-- The shape that holds a member of a oneof is the one placed at its first member, and holds them all. -/
theorem eq_of_indexAt? {x : Shape × List Nat} {k j : Nat} {i : Int32} (h : placedAt? fields oneofs k = some x)
    (hj : j ∈ x.2) (hi : indexAt? fields j = some i) :
    ∃ f, fieldAt? fields k = some f ∧ x = (oneofShape oneofs fields.reduceOption f i, positionsOf fields i) := by
  obtain ⟨f, hf, -, rfl⟩ := placedAt?_eq_some.1 h
  have htogether : together fields k = positionsOf fields i := by
    rw [← together_eq hj, together, hi]
  have hk : f.oneofIndex = some i := by
    rw [← indexAt?_of_fieldAt? hf]
    apply mem_positionsOf.1
    rw [← htogether]
    exact mem_together_self fields k
  exact ⟨f, hf, by simp only [shapeAt, hk, htogether]⟩

theorem length_membersOf (i : Int32) : (membersOf fields.reduceOption i).length = (positionsOf fields i).length := by
  simpa using congrArg List.length (map_some_membersOf fields i)

variable (fields oneofs) in
/-- A oneof with all its members and their positions. -/
def grouped (i : Int32) : Shape × List Nat :=
  (.group (textOf ((oneofAt? oneofs i).bind (·.name))) (membersOf fields.reduceOption i), positionsOf fields i)

section
variable {i : Int32} (hi : 2 ≤ (positionsOf fields i).length)
include hi

theorem eq_grouped {x : Shape × List Nat} {k j : Nat} (h : placedAt? fields oneofs k = some x) (hj : j ∈ x.2)
    (hji : indexAt? fields j = some i) : x = grouped fields oneofs i := by
  have hlen : (membersOf fields.reduceOption i).length ≠ 1 := by
    rw [length_membersOf]
    omega
  obtain ⟨f, -, rfl⟩ := eq_of_indexAt? h hj hji
  rw [oneofShape, if_neg hlen, grouped]

theorem grouped_mem_placed : grouped fields oneofs i ∈ placed fields oneofs := by
  obtain ⟨j, hj⟩ := List.exists_mem_of_length_pos (by omega : 0 < (positionsOf fields i).length)
  have hji := mem_positionsOf.1 hj
  obtain ⟨f, hf, -⟩ := indexAt?_eq_some.1 hji
  obtain ⟨x, hx, hxj⟩ := exists_placed oneofs (mem_positions.2 ⟨f, hf⟩)
  obtain ⟨k, hk⟩ := mem_placed.1 hx
  have hmem : j ∈ x.2 := by
    rw [hxj]
    exact mem_together_self fields j
  rwa [← eq_grouped hi hk hmem hji]

/-- Members of a oneof with several of them are in one shape only. -/
theorem filter_placed : (placed fields oneofs).filter (fun x => x.1.fields.any (·.oneofIndex == some i)) =
    [grouped fields oneofs i] := by
  apply List.perm_singleton.1
  rw [List.perm_ext_iff_of_nodup (nodup_placed.filter _) (List.nodup_singleton _)]
  intro x
  rw [List.mem_filter, List.mem_singleton]
  constructor
  · rintro ⟨hx, hany⟩
    obtain ⟨k, hk⟩ := mem_placed.1 hx
    obtain ⟨f, hf, hfi⟩ := List.any_eq_true.1 hany
    -- The member stands at one of the positions of the shape.
    have hmem : some f ∈ x.2.map (fieldAt? fields) := by
      rw [← fields_of_mem_placed hx]
      exact List.mem_map_of_mem hf
    obtain ⟨j, hj, hjf⟩ := List.mem_map.1 hmem
    apply eq_grouped hi hk hj
    rw [indexAt?_of_fieldAt? hjf]
    exact beq_iff_eq.1 hfi
  · rintro rfl
    refine ⟨grouped_mem_placed hi, List.any_eq_true.2 ?_⟩
    obtain ⟨j, hj⟩ := List.exists_mem_of_length_pos (by omega : 0 < (positionsOf fields i).length)
    obtain ⟨f, hf, hfi⟩ := indexAt?_eq_some.1 (mem_positionsOf.1 hj)
    exact ⟨f, List.mem_filter.2 ⟨mem_of_fieldAt? hf, beq_iff_eq.2 hfi⟩, beq_iff_eq.2 hfi⟩

end
end

/-- Shapes with the positions of their fields, as a message with these oneofs and fields has to have them. -/
structure Placement (oneofs : Entries Oneof) (fields : Entries Field) (P : List (Shape × List Nat)) : Prop where
  /-- A shape holds the fields at its positions, and there is one. -/
  holds : ∀ x ∈ P, x.2 ≠ [] ∧ x.1.fields.map some = x.2.map (fieldAt? fields)
  /-- Every position where a field is present belongs to a shape, and no position is held twice. -/
  once : (P.flatMap Prod.snd).Nodup ∧ ∀ k, k ∈ P.flatMap Prod.snd ↔ ∃ f, fieldAt? fields k = some f
  plain : ∀ k f, fieldAt? fields k = some f → f.oneofIndex = none → (.plain f, [k]) ∈ P
  lone : ∀ k f i, fieldAt? fields k = some f → positionsOf fields i = [k] → (.lone f, [k]) ∈ P
  /-- One shape alone holds fields of a oneof with several: it has its name and all its members. -/
  group : ∀ i, 2 ≤ (positionsOf fields i).length → ∃ o, oneofAt? oneofs i = some o ∧
    P.filter (fun x => x.1.fields.any (·.oneofIndex == some i)) =
      [(.group (textOf o.name) (membersOf fields.reduceOption i), positionsOf fields i)]
  /-- Shapes follow each other as their first fields do. -/
  ordered : P.Pairwise fun x y => ∀ a ∈ x.2.head?, ∀ b ∈ y.2.head?, a < b

section
variable {fields : Entries Field} {oneofs : Entries Oneof}

theorem shapes_eq_ok {scope : Bytes} {S : List Shape} : shapes scope oneofs fields = .ok S ↔
    (∀ f ∈ fields.reduceOption, ∀ i, f.oneofIndex = some i → ∃ o, oneofAt? oneofs i = some o) ∧
      shapesOf oneofs fields = S := by
  simp only [shapes_eq_verdict, verdict_eq_ok, List.findSome?_eq_none_iff, oneofFault_eq_none]

theorem placement_placed
    (h : ∀ f ∈ fields.reduceOption, ∀ i, f.oneofIndex = some i → ∃ o, oneofAt? oneofs i = some o) :
    Placement oneofs fields (placed fields oneofs) where
  holds x hx := by
    obtain ⟨k, hk⟩ := mem_placed.1 hx
    refine ⟨?_, fields_of_mem_placed hx⟩
    rintro hnil
    have := head?_of_placedAt? hk
    rw [hnil] at this
    cases this
  once := ⟨nodup_placed_positions, fun k => mem_placed_positions.trans mem_positions⟩
  plain k f hf hi := mem_placed.2 ⟨k, placedAt?_plain hf hi⟩
  lone k f i hf hone := by
    have hi : indexAt? fields k = some i := mem_positionsOf.1 (by simp [hone])
    obtain ⟨x, hx, hk⟩ := exists_placed oneofs (mem_positions.2 ⟨f, hf⟩)
    obtain ⟨a, ha⟩ := mem_placed.1 hx
    obtain ⟨g, hg, rfl⟩ := eq_of_indexAt? ha (hk ▸ mem_together_self fields k) hi
    have hak := head?_of_placedAt? ha
    rw [hone] at hak
    cases hak
    cases hf.symm.trans hg
    have hlen : (membersOf fields.reduceOption i).length = 1 := by rw [length_membersOf, hone, List.length_singleton]
    rwa [oneofShape, if_pos hlen, hone] at hx
  group i hi := by
    obtain ⟨j, hj⟩ := List.exists_mem_of_length_pos (by omega : 0 < (positionsOf fields i).length)
    obtain ⟨f, hf, hfi⟩ := indexAt?_eq_some.1 (mem_positionsOf.1 hj)
    obtain ⟨o, ho⟩ := h f (mem_of_fieldAt? hf) i hfi
    exact ⟨o, ho, by rw [filter_placed hi, grouped, ho, Option.bind_some]⟩
  ordered := placed_ordered

/-- The shapes of a message hold each field that is present once,
a oneof stands where its first member does, and every oneof index that gathering meets is that of a
oneof which is present. -/
theorem shapes_place_fields {scope : Bytes} {S : List Shape} (h : shapes scope oneofs fields = .ok S) :
    (∃ P, S = P.map Prod.fst ∧ Placement oneofs fields P) ∧
      (S.flatMap Shape.fields).Perm fields.reduceOption ∧
      ∀ f ∈ fields.reduceOption, ∀ i, f.oneofIndex = some i →
        0 ≤ i ∧ ∃ o, oneofs[i.toNatClampNeg]? = some (some o) := by
  obtain ⟨hcheck, rfl⟩ := shapes_eq_ok.1 h
  refine ⟨⟨placed fields oneofs, shapesOf_eq_placed, placement_placed hcheck⟩, ?_, ?_⟩
  · have hmap : ((shapesOf oneofs fields).flatMap Shape.fields).map some =
        ((placed fields oneofs).flatMap Prod.snd).map (fieldAt? fields) := by
      rw [shapesOf_eq_placed, List.flatMap_map, List.map_flatMap, List.map_flatMap]
      exact List.flatMap_congr fun x hx => fields_of_mem_placed hx
    apply (List.map_perm_map_iff fun _ _ => Option.some.inj).1
    rw [hmap, map_some_reduceOption]
    exact placed_perm.map _
  · intro f hf i hi
    obtain ⟨o, ho⟩ := hcheck f hf i hi
    obtain ⟨hpos, hat⟩ := oneofAt?_eq_some.1 ho
    exact ⟨hpos, o, hat⟩

/-- Two oneofs with scattered members, one with a single member, equal fields, and absent entries. -/
theorem shapes_place_fields_scattered :
    let field (n : Int32) (i : Option Int32) : Field := { number := some n, oneofIndex := i }
    let fields := [some (field 1 (some 2)), none, some (field 2 none), some (field 3 (some 0)),
      some (field 1 (some 2)), some (field 4 (some 3)), some (field 3 (some 0))]
    let oneofs : Entries Oneof := [some ⟨utf8 "a"⟩, none, some ⟨utf8 "b"⟩, some {}]
    let S : List Shape := [.group (utf8 "b") [field 1 (some 2), field 1 (some 2)], .plain (field 2 none),
      .group (utf8 "a") [field 3 (some 0), field 3 (some 0)], .lone (field 4 (some 3))]
    shapes [] oneofs fields = .ok S ∧ ∃ P, S = P.map Prod.fst ∧ Placement oneofs fields P := by
  intro field fields oneofs S
  have h : shapes [] oneofs fields = .ok S := by rfl
  exact ⟨h, (shapes_place_fields h).1⟩

end
end ProtoRecovery.Outline
