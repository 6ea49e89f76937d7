import ProtoRecovery.Link.Closure
import ProtoRecovery.Source.Lookup
import ProtoRecovery.Wire.Decode

/-! # Sources: where schema files come from -/
namespace ProtoRecovery
open Schema

inductive SourceError
  | cancelled
  | noInput
  | unreadableSet (path : Bytes) (error : DiskError)
  | undecodableSet (path : Bytes) (error : Wire.DecodeError)
  | uncompiled (error : Compile.CompileError)
  | undialled (target message : Bytes)
  | unlisted (target message : Bytes)
  | unresolvedService (service message : Bytes)
  | broken (message : Bytes)
  deriving DecidableEq, Repr

namespace SourceError

def message : SourceError → Bytes
  | cancelled => utf8 "context canceled"
  | noInput => utf8 "provider: no input files"
  | unreadableSet path error =>
    utf8 "read descriptor set " ++ Text.quote path ++ utf8 ": " ++ error.message
  | undecodableSet path error =>
    utf8 "decode descriptor set " ++ Text.quote path ++ utf8 ": " ++ error.message
  | uncompiled error => utf8 "compile proto sources: " ++ error.message
  | undialled target message => utf8 "dial " ++ target ++ utf8 ": " ++ message
  | unlisted target message => utf8 "list services of " ++ target ++ utf8 ": " ++ message
  | unresolvedService service message => utf8 "resolve service " ++ service ++ utf8 ": " ++ message
  | broken message => message

def errorClass : SourceError → ErrorClass
  | cancelled => .cancelled
  | noInput => .noInput
  | unreadableSet _ error => error.refusal.errorClass
  | undecodableSet .. => .undecodable
  | uncompiled error => error.errorClass
  | undialled .. | unlisted .. | unresolvedService .. | broken _ => .other

end SourceError

structure Request where
  disk : Disk := {}
  cancelled : Bool := false
  deriving Repr

abbrev Source := Request → Except SourceError (List (Option File))

/-- Compiles the source texts at some paths, looked up below the import paths, and describes what it
has compiled. -/
structure Compiler where
  compile : Request → (importPaths files : List Bytes) → Except Compile.CompileError (List Compile.Compiled)
  describe : Compile.Compiled → File

/-- A compiler for the part of the language that files are rendered in. -/
def Compiler.plain : Compiler where
  compile request importPaths files :=
    if request.cancelled then .error .cancelled
    else files.mapM (Compile.compileAt request.disk importPaths)
  describe := Compile.Compiled.describe

inductive LookupError | unknown | failed (message : Bytes) deriving DecidableEq, Repr

/-- A server of linked files, with the services it lists and the file it finds for a name. -/
structure Server where
  files : List File
  services : Request → Except Bytes (List Bytes)
  lookup : Request → (name : Bytes) → Except LookupError File

namespace Server

def ofFiles (files : List File) (services : List Bytes) : Server where
  files
  services request := if request.cancelled then .error (utf8 "context canceled") else .ok services
  lookup request name :=
    if request.cancelled then .error (.failed (utf8 "context canceled"))
    else match Link.declaring? files name with
      | some f => .ok f
      | none => .error .unknown

/-- The files that are found for services. One that is advertised but not known is passed over. -/
def roots (server : Server) (request : Request) : List Bytes → Except SourceError (List File)
  | [] => .ok []
  | service :: services =>
    match server.lookup request service with
    | .ok f => (server.roots request services).map (f :: ·)
    | .error .unknown => server.roots request services
    | .error (.failed message) => .error (.unresolvedService service message)

end Server

namespace Source

def memory (files : List (Option File)) : Source := fun _ => .ok files

def broken (message : Bytes) : Source := fun _ => .error (.broken message)

def isWithin (package lead : Bytes) : Bool :=
  package == lead || Bytes.startsWith (lead ++ [Bytes.dot]) package

def matchesAny (leads : List Bytes) (package : Bytes) : Bool := leads.any (isWithin package)

def keepPackages (leads : List Bytes) (files : List (Option File)) : List (Option File) :=
  files.filter fun
    | some f => matchesAny leads (textOf f.package)
    | none => false

def filtered (leads : List Bytes) (source : Source) : Source := fun request =>
  if leads.isEmpty then source request else (source request).map (keepPackages leads)

/-- The first file of each name, and all files without one; `seen` holds the names so far. -/
def firstOfName : (seen : List Bytes) → List File → List File
  | _, [] => []
  | seen, f :: r =>
    let name := textOf f.name
    if name.isEmpty then f :: firstOfName seen r
    else if seen.contains name then firstOfName seen r
    else f :: firstOfName (name :: seen) r

/-- The answers of several sources, up to the first that fails. -/
def answers (request : Request) : List Source → Except SourceError (List (Option File))
  | [] => .ok []
  | source :: sources => do
    let first ← source request
    let others ← answers request sources
    pure (first ++ others)

def concat (sources : List Source) : Source := fun request =>
  (answers request sources).map fun files => (firstOfName [] files.reduceOption).map some

def readSets (request : Request) : List Bytes → Except SourceError (List File)
  | [] => .ok []
  | path :: paths =>
    if request.cancelled then .error .cancelled
    else match request.disk.read path with
      | .error e => .error (.unreadableSet path e)
      | .ok bytes =>
        match Wire.decodeSet bytes with
        | .error e => .error (.undecodableSet path e)
        | .ok files => (readSets request paths).map (files ++ ·)

def sets (paths : List Bytes) : Except SourceError Source :=
  if paths.isEmpty then .error .noInput
  else .ok fun request => (readSets request paths).map (·.map some)

def registry (files : List File) : Source := fun request =>
  if request.cancelled then .error .cancelled else .ok ((Link.sortByPath files).map some)

def reflection (target : Bytes) (dialled : Except Bytes Server) : Source := fun request => do
  let server ← dialled.mapError (.undialled target)
  let services ← (server.services request).mapError (.unlisted target)
  let roots ← server.roots request services
  pure ((Link.closure server.files roots).map some)

def compiled (compiler : Compiler) (importPaths files : List Bytes) : Except SourceError Source :=
  if files.isEmpty then .error .noInput
  else .ok fun request =>
    match compiler.compile request importPaths files with
    | .error e => .error (.uncompiled e)
    | .ok compiled => .ok (compiled.map fun c => some (compiler.describe c))

end Source
end ProtoRecovery
