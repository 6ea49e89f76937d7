import ProtoRecovery.Disk.Basic
import ProtoRecovery.Outline.Position
import ProtoRecovery.Source.Compile
import ProtoRecovery.Source.Standard

/-! # Lookup: from the paths of source texts to compiled files -/
namespace ProtoRecovery.Compile
open Schema

/-- Why a file cannot be compiled. An import that leads nowhere, or back to where it came from, is
given with the place where it stands. -/
inductive CompileError
  | cancelled
  | unresolved (path : Bytes) (error : DiskError)
  | unreadable (error : DiskError)
  | invalid (path : Bytes)
  | unresolvedImport (file : Bytes) (position : Outline.Position) (path : Bytes) (error : DiskError)
  | importCycle (file : Bytes) (position : Outline.Position) (chain : List Bytes)
  | unknownType (file field reference : Bytes)
  deriving DecidableEq, Repr

namespace CompileError

/-- A path that leads nowhere is named, unless what the disk says about it does so already. -/
def unresolvedMessage (path : Bytes) (error : DiskError) : Bytes :=
  if Bytes.occursIn path error.message then error.message
  else utf8 "could not resolve path " ++ Text.quote path ++ utf8 ": " ++ error.message

def message : CompileError → Bytes
  | cancelled => utf8 "context canceled"
  | unresolved path error => unresolvedMessage path error
  | unreadable error => error.message
  | invalid path => path ++ utf8 ": syntax error"
  | unresolvedImport file position path error =>
    file ++ utf8 ":" ++ position.text ++ utf8 ": " ++ unresolvedMessage path error
  | importCycle file position chain =>
    file ++ utf8 ":" ++ position.text ++ utf8 ": cycle found in imports: " ++
      (utf8 " -> ").intercalate (chain.map Text.quote)
  | unknownType file field reference =>
    file ++ utf8 ": field " ++ field ++ utf8 ": unknown type " ++ reference

def errorClass : CompileError → ErrorClass
  | cancelled => .cancelled
  | unresolved _ error | unreadable error | unresolvedImport _ _ _ error => error.refusal.errorClass
  | invalid _ | importCycle .. | unknownType .. => .other

end CompileError

inductive Found | text (t : Bytes) | standard (t : Bytes)

def Found.content : Found → Bytes
  | text t | standard t => t

/-- The text of a file below the first import path that has it. An import path without the file
leads to the next; any other failure counts at once. -/
def findText (disk : Disk) (path : Bytes) (failure : DiskError) : (importPaths : List Bytes) → Except DiskError Bytes
  | [] => .error failure
  | base :: others =>
    match disk.read (Path.joinText base path) with
    | .ok text => .ok text
    | .error e => if e.refusal = .notFound then findText disk path e others else .error e

/-- What a path leads to: a text on the disk, or else a standard file. -/
def find (disk : Disk) (importPaths : List Bytes) (path : Bytes) : Except CompileError Found :=
  match findText disk path ⟨.opening, path, .notFound⟩ importPaths with
  | .ok text => .ok (.text text)
  | .error e =>
    if e.attempt ≠ .opening then .error (.unreadable e)
    else match Standard.texts.lookup path with
      | some t => .ok (.standard t)
      | none => .error (.unresolved path e)

def importsOf (text : Bytes) : List Bytes :=
  match outline? text with
  | some o => o.imports.map (·.path)
  | none => []

/-- No chain of imports is longer than there are imports. -/
def chainLimit (disk : Disk) : Nat :=
  let onDisk := disk.nodes.flatMap fun
    | (_, .file t) => importsOf t
    | _ => []
  1 + onDisk.length + Standard.texts.length

/-- Reads a text as the file at a path, with the names of the files before it that it can see. -/
def link (earlier : List File) (path text : Bytes) : Except CompileError Compiled :=
  match outline? text with
  | none => .error (.invalid path)
  | some o =>
    let parsed := fileOf loneName path o
    let compiled : Compiled := ⟨parsed, Link.visibleTypes earlier parsed⟩
    match openFieldsIn (textOf parsed.package) compiled.describe.messages with
    | [] => .ok compiled
    | (field, reference) :: _ => .error (.unknownType path field reference)

/-- Adds to the files so far all that a text imports, each after what it imports itself. The chain
leads from the text back to where it started, and `fuel` bounds its length. -/
def gather (disk : Disk) (importPaths : List Bytes) :
    (fuel : Nat) → (chain : List Bytes) → (done : List File) → (path text : Bytes) → Except CompileError (List File)
  | 0, _, done, _, _ => .ok done
  | fuel + 1, chain, done, path, text =>
    (importsOf text).foldlM (fun done target =>
      if chain.contains target then
        .error (.importCycle path (Outline.importPosition text target) (target :: chain).reverse)
      else if done.any fun f => textOf f.name == target then .ok done
      else match find disk importPaths target with
        | .error (.unresolved _ e) =>
          .error (.unresolvedImport path (Outline.importPosition text target) target e)
        | .error e => .error e
        | .ok found => do
          let done ← gather disk importPaths fuel (target :: chain) done target found.content
          let compiled ← link done target found.content
          pure (done ++ [compiled.parsed])) done

def compileAt (disk : Disk) (importPaths : List Bytes) (path : Bytes) : Except CompileError Compiled := do
  let found ← find disk importPaths path
  let imports ← gather disk importPaths (chainLimit disk) [path] [] path found.content
  link imports path found.content

end ProtoRecovery.Compile
