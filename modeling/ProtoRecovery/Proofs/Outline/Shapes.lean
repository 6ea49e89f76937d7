import Mathlib.Data.List.Nodup
import Mathlib.Data.List.ReduceOption
import Mathlib.Data.Nat.Find
import ProtoRecovery.Outline.Shape

/-! # Which fields the shapes of a message hold, and in which order -/
namespace ProtoRecovery.Outline
open Schema

/-- The shapes of fields whose oneof indices are all in order. -/
def shapesOf (oneofs : Entries Oneof) (fields : Entries Field) : List Shape :=
  gather oneofs fields.reduceOption [] fields.reduceOption

/-- The fields shown at one place: all members of a oneof where the first one is declared. -/
def shownAt (fields : List Field) (place : Field × Nat) : List Field :=
  match place.1.oneofIndex with
  | none => [place.1]
  | some i => if (fields.take place.2).any (·.oneofIndex == some i) then [] else membersOf fields i

/-- The fields in the order in which they are shown. -/
def shownOrder (fields : List Field) : List Field := fields.zipIdx.flatMap (shownAt fields)

theorem fields_oneofShape (oneofs : Entries Oneof) {fields : List Field} {f : Field} {i : Int32}
    (hf : f ∈ fields) (hi : f.oneofIndex = some i) :
    (oneofShape oneofs fields f i).fields = membersOf fields i := by
  unfold oneofShape
  dsimp only
  split
  next h =>
    obtain ⟨g, hg⟩ := List.length_eq_one_iff.1 h
    have hmem : f ∈ membersOf fields i := List.mem_filter.2 ⟨hf, by simp [hi]⟩
    rw [hg, List.mem_singleton] at hmem
    rw [hg, hmem, Shape.fields]
  next => rfl

-- What has been placed already is what occurs before the fields that remain.
private theorem fields_gather (oneofs : Entries Oneof) (r pre : List Field) (seen : List Int32)
    (h : ∀ i, seen.contains i = pre.any (·.oneofIndex == some i)) :
    (gather oneofs (pre ++ r) seen r).flatMap Shape.fields =
      (r.zipIdx pre.length).flatMap (shownAt (pre ++ r)) := by
  induction r generalizing pre seen with
  | nil => rfl
  | cons f r ih =>
    have hpre : pre ++ f :: r = (pre ++ [f]) ++ r := by simp
    have hlen : pre.length + 1 = (pre ++ [f]).length := by simp
    unfold gather
    rw [List.zipIdx_cons, List.flatMap_cons, shownAt]
    cases hi : f.oneofIndex with
    | none =>
      have hseen : ∀ i, seen.contains i = (pre ++ [f]).any (·.oneofIndex == some i) := by
        intro i
        rw [h i]
        simp [hi]
      simp only [List.flatMap_cons, Shape.fields]
      rw [hlen, hpre, ih _ _ hseen]
    | some i =>
      simp only [List.take_left, ← h i]
      by_cases hs : seen.contains i
      · have hseen : ∀ j, seen.contains j = (pre ++ [f]).any (·.oneofIndex == some j) := by
          intro j
          by_cases hj : i = j
          · subst hj
            rw [hs]
            simp [hi]
          · rw [h j]
            simp [hi, hj]
        rw [if_pos hs, if_pos hs, hlen, hpre, ih _ _ hseen]
        rfl
      · have hseen : ∀ j, (i :: seen).contains j = (pre ++ [f]).any (·.oneofIndex == some j) := by
          intro j
          rw [List.contains_cons, h j]
          simp [hi, Bool.or_comm, Bool.beq_comm]
        have hmem : f ∈ pre ++ f :: r := by simp
        have hfields := fields_oneofShape oneofs hmem hi
        rw [if_neg hs, if_neg hs, List.flatMap_cons, hfields, hlen, hpre, ih _ _ hseen]

theorem fields_shapesOf (oneofs : Entries Oneof) (fields : Entries Field) :
    (shapesOf oneofs fields).flatMap Shape.fields = shownOrder fields.reduceOption :=
  fields_gather oneofs fields.reduceOption [] [] fun _ => rfl

theorem oneofAt?_eq_some {oneofs : Entries Oneof} {i : Int32} {o : Oneof} :
    oneofAt? oneofs i = some o ↔ 0 ≤ i ∧ oneofs[i.toNatClampNeg]? = some (some o) := by
  unfold oneofAt?
  by_cases hi : i < 0
  · simp [hi, Int32.not_le.2 hi]
  · rw [if_neg hi, Option.join_eq_some_iff]
    simp [Int32.not_lt.1 hi]

theorem mem_of_oneofAt? {oneofs : Entries Oneof} {i : Int32} {o : Oneof} (h : oneofAt? oneofs i = some o) :
    o ∈ oneofs.reduceOption :=
  List.reduceOption_mem_iff.2 (List.mem_of_getElem? (oneofAt?_eq_some.1 h).2)

/-- Every field is shown, and nothing else. -/
theorem mem_shownOrder {fields : List Field} {f : Field} : f ∈ shownOrder fields ↔ f ∈ fields := by
  simp only [shownOrder, List.mem_flatMap]
  constructor
  · rintro ⟨⟨g, k⟩, hg, hf⟩
    have hmem : g ∈ fields := List.fst_mem_of_mem_zipIdx hg
    unfold shownAt at hf
    split at hf
    · rwa [List.mem_singleton.1 hf]
    · split at hf
      · cases hf
      · exact (List.mem_filter.1 hf).1
  · intro hf
    obtain ⟨k, hk, rfl⟩ := List.getElem_of_mem hf
    cases hi : fields[k].oneofIndex with
    | none => exact ⟨(fields[k], k), by simp [List.mem_zipIdx_iff_getElem?], by simp [shownAt, hi]⟩
    | some i =>
      -- All members of the oneof stand where its first one does.
      have hex : ∃ n, ∃ h : n < fields.length, fields[n].oneofIndex = some i := ⟨k, hk, hi⟩
      classical
      obtain ⟨hn, hfirst⟩ := Nat.find_spec hex
      refine ⟨(fields[Nat.find hex], Nat.find hex), by simp [List.mem_zipIdx_iff_getElem?], ?_⟩
      have hnone : (fields.take (Nat.find hex)).any (·.oneofIndex == some i) = false := by
        rw [List.any_eq_false]
        intro g hg
        obtain ⟨j, hj, rfl⟩ := List.mem_take_iff_getElem.1 hg
        have hlt : j < Nat.find hex := by omega
        have hno := Nat.find_min hex hlt
        simp only [not_exists] at hno
        simpa using hno (by omega)
      simp [shownAt, hfirst, hnone, membersOf, hi]

/-- What a shape holds of the fields that it was gathered from. -/
def Shape.IsOf (oneofs : Entries Oneof) (fields : List Field) : Shape → Prop
  | plain f => f ∈ fields
  | lone f => f ∈ fields
  | group name members => ∃ f ∈ fields, ∃ i, f.oneofIndex = some i ∧ members = membersOf fields i ∧
      2 ≤ members.length ∧ name = textOf ((oneofAt? oneofs i).bind (·.name))

theorem isOf_oneofShape (oneofs : Entries Oneof) {fields : List Field} {f : Field} {i : Int32}
    (hf : f ∈ fields) (hi : f.oneofIndex = some i) : (oneofShape oneofs fields f i).IsOf oneofs fields := by
  unfold oneofShape
  dsimp only
  split
  next => exact hf
  next h =>
    have hmem : f ∈ membersOf fields i := List.mem_filter.2 ⟨hf, by simp [hi]⟩
    have := List.length_pos_of_mem hmem
    exact ⟨f, hf, i, hi, rfl, by omega, rfl⟩

theorem isOf_of_mem_gather {oneofs : Entries Oneof} {fields r : List Field} {seen : List Int32} {s : Shape}
    (hr : r ⊆ fields) (hs : s ∈ gather oneofs fields seen r) : s.IsOf oneofs fields := by
  induction r generalizing seen with
  | nil => cases hs
  | cons f r ih =>
    obtain ⟨hf, hr⟩ := List.cons_subset.1 hr
    unfold gather at hs
    split at hs
    · rcases List.mem_cons.1 hs with rfl | hs
      · exact hf
      · exact ih hr hs
    next i hi =>
      split at hs
      · exact ih hr hs
      · rcases List.mem_cons.1 hs with rfl | hs
        · exact isOf_oneofShape oneofs hf hi
        · exact ih hr hs

theorem isOf_of_mem_shapesOf {oneofs : Entries Oneof} {fields : Entries Field} {s : Shape}
    (h : s ∈ shapesOf oneofs fields) : s.IsOf oneofs fields.reduceOption :=
  isOf_of_mem_gather (List.Subset.refl _) h

/-- The oneof that a shape stands for. -/
def Shape.index? : Shape → Option Int32
  | plain _ => none
  | lone f => f.oneofIndex
  | group _ members => members.head?.bind (·.oneofIndex)

/-- A shape as gathering makes it, when all its fields have the index it has. -/
structure Shape.Fits (oneofs : Entries Oneof) (s : Shape) : Prop where
  fields : ∀ f ∈ s.fields, f.oneofIndex = s.index?
  lone : ∀ f, s = .lone f → s.index?.isSome
  group : ∀ name members, s = .group name members → 2 ≤ members.length ∧
    ∃ i, s.index? = some i ∧ name = textOf ((oneofAt? oneofs i).bind (·.name))

namespace Shape

theorem fits_plain (oneofs : Entries Oneof) {f : Field} (h : f.oneofIndex = none) : (plain f).Fits oneofs where
  fields g hg := by
    rw [List.mem_singleton.1 hg, h]
    rfl
  lone _ he := by cases he
  group _ _ he := by cases he

theorem fits_lone (oneofs : Entries Oneof) {f : Field} {i : Int32} (h : f.oneofIndex = some i) :
    (lone f).Fits oneofs where
  fields g hg := by
    rw [List.mem_singleton.1 hg]
    rfl
  lone _ _ := by simp [index?, h]
  group _ _ he := by cases he

theorem fits_group {oneofs : Entries Oneof} {name : Bytes} {members : List Field} {i : Int32}
    (hlen : 2 ≤ members.length) (h : ∀ f ∈ members, f.oneofIndex = some i)
    (hname : name = textOf ((oneofAt? oneofs i).bind (·.name))) : (group name members).Fits oneofs := by
  obtain ⟨f, ms, rfl⟩ := List.exists_cons_of_length_pos (show 0 < members.length by omega)
  have hindex : (group name (f :: ms)).index? = some i := h f List.mem_cons_self
  constructor
  · intro g hg
    rw [hindex, h g hg]
  · intro g he
    cases he
  · intro name' members' he
    cases he
    exact ⟨hlen, i, hindex, hname⟩

end Shape

private theorem membersOf_append (a b : List Field) (i : Int32) :
    membersOf (a ++ b) i = membersOf a i ++ membersOf b i := List.filter_append ..

private theorem membersOf_eq_self {fields : List Field} {i : Int32} (h : ∀ f ∈ fields, f.oneofIndex = some i) :
    membersOf fields i = fields := List.filter_eq_self.2 fun f hf => by simp [h f hf]

private theorem membersOf_eq_nil {fields : List Field} {i : Int32} (h : ∀ f ∈ fields, f.oneofIndex ≠ some i) :
    membersOf fields i = [] := List.filter_eq_nil_iff.2 fun f hf => by simpa using h f hf

/-- Where no two shapes stand for one oneof, its members are the fields of its shape. -/
private theorem membersOf_flatMap {S : List Shape} (hS : ∀ s ∈ S, ∀ f ∈ s.fields, f.oneofIndex = s.index?)
    (hnd : (S.filterMap Shape.index?).Nodup) {s : Shape} {i : Int32} (hs : s ∈ S) (hi : s.index? = some i) :
    membersOf (S.flatMap Shape.fields) i = s.fields := by
  induction S with
  | nil => cases hs
  | cons r S ih =>
    obtain ⟨hr, hS⟩ := List.forall_mem_cons.1 hS
    have hnd' : (S.filterMap Shape.index?).Nodup := hnd.sublist ((List.sublist_cons_self r S).filterMap _)
    rw [List.flatMap_cons, membersOf_append]
    by_cases hri : r.index? = some i
    · have hnot : i ∉ S.filterMap Shape.index? := by
        rw [List.filterMap_cons_some hri] at hnd
        exact (List.nodup_cons.1 hnd).1
      have hrest : membersOf (S.flatMap Shape.fields) i = [] := by
        refine membersOf_eq_nil fun f hf he => hnot ?_
        obtain ⟨x, hx, hfx⟩ := List.mem_flatMap.1 hf
        exact List.mem_filterMap.2 ⟨x, hx, (hS x hx f hfx).symm.trans he⟩
      have hsr : s = r := by
        rcases List.mem_cons.1 hs with h | h
        · exact h
        · exact absurd (List.mem_filterMap.2 ⟨s, h, hi⟩) hnot
      rw [hrest, List.append_nil, hsr]
      exact membersOf_eq_self fun f hf => (hr f hf).trans hri
    · have hhead : membersOf r.fields i = [] := by
        refine membersOf_eq_nil fun f hf he => hri ?_
        rw [← hr f hf, he]
      have hs' : s ∈ S := by
        rcases List.mem_cons.1 hs with rfl | h
        · exact absurd hi hri
        · exact h
      rw [hhead, List.nil_append]
      exact ih hS hnd' hs'

private theorem gather_seen {oneofs : Entries Oneof} {all : List Field} {seen : List Int32} {i : Int32} {ms : List Field}
    (hi : i ∈ seen) (hms : ∀ f ∈ ms, f.oneofIndex = some i) (r : List Field) :
    gather oneofs all seen (ms ++ r) = gather oneofs all seen r := by
  induction ms with
  | nil => rfl
  | cons f ms ih =>
    obtain ⟨hf, hms⟩ := List.forall_mem_cons.1 hms
    have hc : seen.contains i = true := by simpa using hi
    rw [List.cons_append, gather, hf]
    simp only [hc, if_true]
    exact ih hms

private theorem gather_shapes {oneofs : Entries Oneof} {all : List Field} (R : List Shape) (seen : List Int32)
    (hR : ∀ s ∈ R, s.Fits oneofs) (hall : ∀ s ∈ R, ∀ i, s.index? = some i → membersOf all i = s.fields)
    (hnd : (R.filterMap Shape.index?).Nodup) (hseen : ∀ i ∈ R.filterMap Shape.index?, i ∉ seen) :
    gather oneofs all seen (R.flatMap Shape.fields) = R := by
  induction R generalizing seen with
  | nil => rfl
  | cons s R ih =>
    obtain ⟨hs, hR'⟩ := List.forall_mem_cons.1 hR
    obtain ⟨hsall, hall'⟩ := List.forall_mem_cons.1 hall
    have hnd' : (R.filterMap Shape.index?).Nodup := hnd.sublist ((List.sublist_cons_self s R).filterMap _)
    rw [List.flatMap_cons]
    -- A shape with an index is gathered at its first field, and its other fields are passed over.
    have hplaced : ∀ f ms i, s.fields = f :: ms → s.index? = some i → oneofShape oneofs all f i = s →
        gather oneofs all seen (s.fields ++ R.flatMap Shape.fields) = s :: R := by
      intro f ms i hfields hi hshape
      have hf : f.oneofIndex = some i := (hs.fields f (by simp [hfields])).trans hi
      have hms : ∀ g ∈ ms, g.oneofIndex = some i := fun g hg => (hs.fields g (by simp [hfields, hg])).trans hi
      rw [List.filterMap_cons_some hi] at hnd hseen
      have hfresh : seen.contains i = false := by simpa using hseen i List.mem_cons_self
      have hrest : ∀ j ∈ R.filterMap Shape.index?, j ∉ i :: seen := by
        intro j hj hmem
        rcases List.mem_cons.1 hmem with rfl | hmem
        · exact (List.nodup_cons.1 hnd).1 hj
        · exact hseen j (List.mem_cons_of_mem i hj) hmem
      rw [hfields, List.cons_append, gather, hf]
      simp only [hfresh, Bool.false_eq_true, if_false]
      rw [gather_seen List.mem_cons_self hms, ih (i :: seen) hR' hall' hnd' hrest, hshape]
    cases s with
    | plain f =>
      have hf : f.oneofIndex = none := hs.fields f (by simp [Shape.fields])
      have hseen' : ∀ i ∈ R.filterMap Shape.index?, i ∉ seen := fun i hi => hseen i (by simpa [Shape.index?] using hi)
      simp only [Shape.fields, List.singleton_append, gather, hf]
      rw [ih seen hR' hall' hnd' hseen']
    | lone f =>
      obtain ⟨i, hi⟩ := Option.isSome_iff_exists.1 (hs.lone f rfl)
      refine hplaced f [] i rfl hi ?_
      have hmembers := hsall i hi
      simp [oneofShape, hmembers, Shape.fields]
    | group name members =>
      obtain ⟨hlen, i, hi, hname⟩ := hs.group name members rfl
      obtain ⟨f, ms, rfl⟩ := List.exists_cons_of_length_pos (show 0 < members.length by omega)
      refine hplaced f ms i rfl hi ?_
      have hmembers : membersOf all i = f :: ms := hsall i hi
      have hne : (f :: ms).length ≠ 1 := by omega
      simp only [oneofShape, hmembers, if_neg hne, ← hname]

/-- Shapes come back from their fields. -/
theorem gather_flatMap_fields {oneofs : Entries Oneof} {S : List Shape} (hS : ∀ s ∈ S, s.Fits oneofs)
    (hnd : (S.filterMap Shape.index?).Nodup) :
    gather oneofs (S.flatMap Shape.fields) [] (S.flatMap Shape.fields) = S :=
  gather_shapes S [] hS (fun _ hs _ hi => membersOf_flatMap (fun s hs => (hS s hs).fields) hnd hs hi) hnd (by simp)

/-- Whether a shape stands for a oneof. -/
def Shape.isOneof : Shape → Bool
  | plain _ => false
  | _ => true

theorem isOneof_oneofShape (oneofs : Entries Oneof) (fields : List Field) (f : Field) (i : Int32) :
    (oneofShape oneofs fields f i).isOneof = true := by
  unfold oneofShape
  dsimp only
  split <;> rfl

/-- The oneofs that are placed have different indices. -/
private theorem exists_indices (oneofs : Entries Oneof) (fields r : List Field) (seen : List Int32) :
    ∃ is : List Int32, is.Nodup ∧ is.length = (gather oneofs fields seen r).countP Shape.isOneof ∧
      ∀ i ∈ is, i ∉ seen ∧ ∃ f ∈ r, f.oneofIndex = some i := by
  induction r generalizing seen with
  | nil => exact ⟨[], List.nodup_nil, rfl, by simp⟩
  | cons f r ih =>
    unfold gather
    split
    · obtain ⟨is, hnd, hlen, his⟩ := ih seen
      refine ⟨is, hnd, by simp [hlen, Shape.isOneof], fun i hi => ?_⟩
      obtain ⟨hn, g, hg, hgi⟩ := his i hi
      exact ⟨hn, g, List.mem_cons_of_mem f hg, hgi⟩
    next j hj =>
      split
      · obtain ⟨is, hnd, hlen, his⟩ := ih seen
        refine ⟨is, hnd, hlen, fun i hi => ?_⟩
        obtain ⟨hn, g, hg, hgi⟩ := his i hi
        exact ⟨hn, g, List.mem_cons_of_mem f hg, hgi⟩
      next hs =>
        obtain ⟨is, hnd, hlen, his⟩ := ih (j :: seen)
        have hj' : j ∉ is := fun h => (his j h).1 List.mem_cons_self
        refine ⟨j :: is, List.nodup_cons.2 ⟨hj', hnd⟩, ?_, fun i hi => ?_⟩
        · simp [hlen, isOneof_oneofShape]
        · rcases List.mem_cons.1 hi with rfl | hi
          · exact ⟨by simpa using hs, f, List.mem_cons_self, hj⟩
          · obtain ⟨hn, g, hg, hgi⟩ := his i hi
            exact ⟨fun h => hn (List.mem_cons_of_mem j h), g, List.mem_cons_of_mem f hg, hgi⟩

/-- Indices of oneofs that exist are not negative, so there are at most half as many as codes. -/
theorem countP_isOneof_le {oneofs : Entries Oneof} {fields : Entries Field}
    (h : ∀ f ∈ fields.reduceOption, ∀ i, f.oneofIndex = some i → (oneofAt? oneofs i).isSome) :
    (shapesOf oneofs fields).countP Shape.isOneof ≤ 2147483648 := by
  obtain ⟨is, hnd, hlen, his⟩ := exists_indices oneofs fields.reduceOption fields.reduceOption []
  have hpos : ∀ i ∈ is, 0 ≤ i := fun i hi => by
    obtain ⟨-, f, hf, hfi⟩ := his i hi
    obtain ⟨o, ho⟩ := Option.isSome_iff_exists.1 (h f hf i hfi)
    exact (oneofAt?_eq_some.1 ho).1
  have hinj : (is.map Int32.toNatClampNeg).Nodup := by
    refine List.Nodup.map_on (fun i hi j hj e => ?_) hnd
    rw [← Int32.ofNat_toNatClampNeg i (hpos i hi), e, Int32.ofNat_toNatClampNeg j (hpos j hj)]
  have hsub : is.map Int32.toNatClampNeg ⊆ List.range 2147483648 := by
    intro n hn
    obtain ⟨i, -, rfl⟩ := List.mem_map.1 hn
    exact List.mem_range.2 i.toNatClampNeg_lt
  have := hinj.length_le_of_subset hsub
  rw [List.length_map, List.length_range, hlen] at this
  exact this

end ProtoRecovery.Outline
