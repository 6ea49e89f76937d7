import Mathlib.Data.List.ReduceOption
import ProtoRecovery.Proofs.Text.Splitting
import ProtoRecovery.Schema.Basic

/-! # All messages of a file, with the names that lead to them -/
namespace ProtoRecovery.Schema

mutual
/-- A message before those inside it, each with the names that lead to it. -/
def Message.located (path : List Bytes) : Message → List (List Bytes × Message)
  | ⟨name, fields, nested, enums, oneofs, extensions, mapEntry, features⟩ =>
    (path ++ [textOf name], ⟨name, fields, nested, enums, oneofs, extensions, mapEntry, features⟩) ::
      locatedIn (path ++ [textOf name]) nested
def locatedIn (path : List Bytes) : List (Option Message) → List (List Bytes × Message)
  | [] => []
  | none :: r => locatedIn path r
  | some m :: r => m.located path ++ locatedIn path r
end

mutual
/-- Which messages there are does not depend on the names that lead to them. -/
theorem Message.map_snd_located (path path' : List Bytes) : (m : Message) →
    (m.located path).map Prod.snd = (m.located path').map Prod.snd
  | ⟨name, fields, nested, enums, oneofs, extensions, mapEntry, features⟩ => by
    have hnested := map_snd_locatedIn (path ++ [textOf name]) (path' ++ [textOf name]) nested
    rw [Message.located, Message.located, List.map_cons, List.map_cons, hnested]
theorem map_snd_locatedIn (path path' : List Bytes) : (ms : List (Option Message)) →
    (locatedIn path ms).map Prod.snd = (locatedIn path' ms).map Prod.snd
  | [] => rfl
  | none :: r => map_snd_locatedIn path path' r
  | some m :: r => by
    rw [locatedIn, locatedIn, List.map_append, List.map_append, m.map_snd_located path path',
      map_snd_locatedIn path path' r]
end

theorem locatedIn_eq (path : List Bytes) (ms : List (Option Message)) :
    locatedIn path ms = ms.reduceOption.flatMap (Message.located path) := by
  induction ms with
  | nil => rfl
  | cons m ms ih =>
    cases m with
    | none => exact ih
    | some m => rw [locatedIn, ih, List.reduceOption_cons_of_some, List.flatMap_cons]

/-- The messages of a file in the order of their declarations; paths start with the package. -/
def File.located (f : File) : List (List Bytes × Message) := locatedIn [textOf f.package] f.messages

mutual
/-- How many messages a message has inside one another, itself included. -/
def Message.height : Message → Nat
  | ⟨_, _, nested, _, _, _, _, _⟩ => heightIn nested + 1
def heightIn : List (Option Message) → Nat
  | [] => 0
  | none :: r => heightIn r
  | some m :: r => max m.height (heightIn r)
end

/-- How deep messages are nested; those at the top of the file are at depth zero. -/
def File.nesting (f : File) : Nat := heightIn f.messages - 1

/-- Names joined by dots, without the empty ones in front. -/
def dotted (path : List Bytes) : Bytes := Bytes.join Bytes.dot (path.dropWhile List.isEmpty)

private theorem join_eq_nil_iff {p : Bytes} {path : List Bytes} :
    Bytes.join Bytes.dot (p :: path) = [] ↔ p = [] ∧ path = [] := by
  cases path <;> simp [Bytes.join]

theorem dotted_concat (path : List Bytes) (name : Bytes) :
    dotted (path ++ [name]) = qualify (dotted path) name := by
  induction path with
  | nil => cases name <;> simp [dotted, qualify, Bytes.join]
  | cons p path ih =>
    cases p with
    | nil => simpa [dotted] using ih
    | cons b p =>
      have hne : Bytes.join Bytes.dot ((b :: p) :: path) ≠ [] := by simp [join_eq_nil_iff]
      have hj : Bytes.join Bytes.dot ((b :: p) :: (path ++ [name])) = Bytes.join Bytes.dot ((b :: p) :: path) ++ Bytes.dot :: name :=
        Bytes.join_append (List.cons_ne_nil _ _) (List.cons_ne_nil _ _)
      simp [dotted, qualify, hj, hne]

end ProtoRecovery.Schema
