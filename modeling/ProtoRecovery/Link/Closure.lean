import ProtoRecovery.Link.Names

/-! # The import closure of a set of files -/
namespace ProtoRecovery.Link
open Schema

def fileAt? (files : List File) (path : Bytes) : Option File :=
  files.find? fun f => textOf f.name == path

def without (files : List File) (path : Bytes) : List File :=
  files.filter fun f => textOf f.name != path

theorem length_without_lt {files : List File} {path : Bytes} {f : File}
    (h : fileAt? files path = some f) : (without files path).length < files.length :=
  List.length_filter_lt_length_iff_exists.2
    ⟨f, List.mem_of_find?_eq_some h, by simpa using List.find?_some h⟩

/-- The files at the pending paths and all they import, each once; `unseen` holds the files that
have not been collected yet. -/
def collect (unseen : List File) : (pending : List Bytes) → List File
  | [] => []
  | path :: pending =>
    match _h : fileAt? unseen path with
    | none => collect unseen pending
    | some f => f :: collect (without unseen path) (f.dependencies ++ pending)
termination_by pending => (unseen.length, pending.length)
decreasing_by
  · exact Prod.Lex.right _ (Nat.lt_succ_self _)
  · exact Prod.Lex.left _ _ (length_without_lt _h)

def sortByPath (files : List File) : List File :=
  files.mergeSort fun f g => Bytes.le (textOf f.name) (textOf g.name)

def declaring? (files : List File) (name : Bytes) : Option File :=
  files.find? fun f => (symbols f).contains name

def closure (files roots : List File) : List File :=
  sortByPath (collect files (roots.map fun f => textOf f.name))

end ProtoRecovery.Link
