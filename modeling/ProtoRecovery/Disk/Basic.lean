import ProtoRecovery.Disk.Error
import ProtoRecovery.Disk.Path

/-! # A disk: directories and files without links -/
namespace ProtoRecovery

inductive Node | file (content : Bytes) | directory deriving DecidableEq, Repr

/-- How the directories above one that is missing are asked for: by their bare paths, or with a slash
at the end. Releases of the system's library differ in this; the answers that were recorded are of
the first kind. -/
inductive Ascent | bare | slashed deriving DecidableEq, Repr

/-- What stands at each place; a place is given by its components from the root. The root itself
is always a directory and is not listed. -/
structure Disk where
  /-- The place at which relative paths start. -/
  workplace : List Bytes := []
  nodes : List (List Bytes × Node) := []
  ascent : Ascent := .bare
  deriving DecidableEq, Repr

/-- A directory that is to be made, as the system is asked for it. -/
structure Stage where
  path : Path
  spelling : Bytes
  /-- What is said of a file in its place. -/
  barred : Refusal
  deriving DecidableEq, Repr

/-- A slash at the end turns a file in the place of a directory into one that exists already. -/
def Ascent.stage (a : Ascent) (p : Path) : Stage :=
  match a with
  | bare => ⟨p, p.text, .notDirectory⟩
  | slashed => ⟨p, p.text ++ [Bytes.slash], .fileExists⟩

/-- All directories down to a path. The path itself never has a slash at its end. -/
def Ascent.stages (a : Ascent) (p : Path) : List Stage :=
  p.parent.steps.map a.stage ++ if p.parts.isEmpty then [] else [bare.stage p]

namespace Disk

def node? (d : Disk) (place : List Bytes) : Option Node :=
  if place = [] then some .directory else d.nodes.lookup place

def put (d : Disk) (place : List Bytes) (node : Node) : Disk :=
  { d with nodes := (place, node) :: d.nodes.filter fun entry => entry.1 != place }

def maxName : Nat := 255

def maxPath : Nat := 4095

/-- Where a path leads: to a node, or to a place that is free in an existing directory. -/
inductive Spot | taken (place : List Bytes) (node : Node) | free (place : List Bytes)
  deriving DecidableEq, Repr

def walk (d : Disk) (place : List Bytes) (node : Node) : (parts : List Bytes) → Except Refusal Spot
  | [] => .ok (.taken place node)
  | part :: parts =>
    if node ≠ .directory then .error .notDirectory
    else if part = [] || part = Path.here then walk d place node parts
    else if part = Path.up then walk d place.dropLast .directory parts
    else if maxName < part.length then .error .nameTooLong
    else
      let next := place ++ [part]
      match d.node? next with
      | some node => walk d next node parts
      | none => if parts.isEmpty then .ok (.free next) else .error .notFound

/-- Finds where a path leads when the system is given a spelling of it. -/
def locateAs (d : Disk) (spelling path : Bytes) : Except Refusal Spot :=
  if spelling.contains 0 then .error .invalidArgument
  else if spelling.isEmpty then .error .notFound
  else if maxPath < spelling.length then .error .nameTooLong
  else walk d (if path.head? = some Bytes.slash then [] else d.workplace) .directory
    (Bytes.split Bytes.slash path)

def locate (d : Disk) (path : Bytes) : Except Refusal Spot := d.locateAs path path

def read (d : Disk) (path : Bytes) : Except DiskError Bytes :=
  match d.locate path with
  | .error e => .error ⟨.opening, path, e⟩
  | .ok (.free _) => .error ⟨.opening, path, .notFound⟩
  | .ok (.taken _ .directory) => .error ⟨.reading, path, .isDirectory⟩
  | .ok (.taken _ (.file content)) => .ok content

/-- Makes the directories of the list that are missing, in order, up to the first refusal. What
was made before a refusal stays. -/
def makeEach : (stages : List Stage) → Disk → Option DiskError × Disk
  | [], d => (none, d)
  | stage :: stages, d =>
    match d.locateAs stage.spelling stage.path.text with
    | .error e => (some ⟨.makingDirectory, stage.spelling, e⟩, d)
    | .ok (.taken _ .directory) => makeEach stages d
    | .ok (.taken _ (.file _)) => (some ⟨.makingDirectory, stage.spelling, stage.barred⟩, d)
    | .ok (.free place) => makeEach stages (d.put place .directory)

def makeAll (path : Path) (d : Disk) : Option DiskError × Disk := makeEach (d.ascent.stages path) d

/-- Writes a file in an existing directory, instead of one that stands there. -/
def write (path text : Bytes) (d : Disk) : Option DiskError × Disk :=
  match d.locate path with
  | .error e => (some ⟨.opening, path, e⟩, d)
  | .ok (.taken _ .directory) => (some ⟨.opening, path, .isDirectory⟩, d)
  | .ok (.taken place (.file _)) => (none, d.put place (.file text))
  | .ok (.free place) => (none, d.put place (.file text))

def writeBelow (path : Path) (text : Bytes) (d : Disk) : Option DiskError × Disk :=
  match makeAll path.parent d with
  | (some e, d) => (some e, d)
  | (none, d) => write path.text text d

/-- The part of a place below the workplace. -/
def below? : (workplace place : List Bytes) → Option (List Bytes)
  | [], place => some place
  | _ :: _, [] => none
  | a :: workplace, b :: place => if a = b then below? workplace place else none

def files (d : Disk) : List (Bytes × Bytes) :=
  let found := d.nodes.filterMap fun
    | (place, .file content) => (below? d.workplace place).map fun p => (Bytes.join Bytes.slash p, content)
    | _ => none
  found.mergeSort fun a b => Bytes.le a.1 b.1

def blank (workplace : List Bytes) : Disk :=
  { workplace
    nodes := (List.range workplace.length).map fun n => (workplace.take (n + 1), .directory) }

end Disk
end ProtoRecovery
