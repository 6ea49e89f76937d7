import ProtoRecovery.Cli.Command
import ProtoRecovery.RunId
import Std.Time

/-! # The program: finds what its arguments name, does the command, and keeps what it leaves behind -/
namespace ProtoRecovery.Program

def textOf (b : ByteArray) : Bytes := b.data.toList
def dataOf (t : Bytes) : ByteArray := ⟨t.toArray⟩

def spelling (place : List Bytes) : String :=
  (String.fromUTF8? (dataOf (Path.text ⟨true, place⟩))).getD ""

/-- Puts what stands at a place onto the disk, and with `deep` also all that stands below it. -/
partial def load (deep : Bool) (disk : Disk) (place : List Bytes) : IO Disk := do
  let here := (← IO.currentDir) / spelling place
  if ← here.isDir then
    let disk := disk.put place .directory
    if deep then
      (← here.readDir).foldlM (fun disk entry => load deep disk (place ++ [utf8 entry.fileName])) disk
    else pure disk
  else if ← here.pathExists then
    pure (disk.put place (.file (textOf (← IO.FS.readBinFile here))))
  else pure disk

def loadPath (deep : Bool) (disk : Disk) (path : Bytes) : IO Disk := do
  let base := if path.head? = some Bytes.slash then [] else Path.text ⟨true, disk.workplace⟩
  let parts := (Path.join base path).parts
  let mut disk := disk
  for n in List.range parts.length do
    disk ← load (deep && n + 1 = parts.length) disk (parts.take (n + 1))
  pure disk

/-- Puts source texts onto the disk, with all they import; `seen` holds the paths that are done. -/
partial def loadTexts (searchPaths seen : List Bytes) (disk : Disk) : List Bytes → IO Disk
  | [] => pure disk
  | path :: pending => do
    if seen.contains path then loadTexts searchPaths seen disk pending
    else
      let disk ← (searchPaths.map fun base => Path.joinText base path).foldlM (loadPath false) disk
      let imports := match Compile.findText disk path ⟨.opening, path, .notFound⟩ searchPaths with
        | .ok text => Compile.importsOf text
        | .error _ => []
      loadTexts searchPaths (path :: seen) disk (imports ++ pending)

/-- The disk as far as a dump can see it. -/
def diskFor (arguments : List Bytes) : IO Disk := do
  let cwd ← IO.currentDir
  let blank := Disk.blank (Path.clean (utf8 cwd.toString)).parts
  match Cli.requested? arguments with
  | none => pure blank
  | some s =>
    let disk ← s.sets.foldlM (loadPath false) blank
    let disk ← loadTexts s.searchPaths [] disk s.texts
    if s.out = utf8 "-" then pure disk else loadPath true disk s.out

def keep (before after : Disk) : IO Unit := do
  let cwd ← IO.currentDir
  for (place, node) in after.nodes.reverse do
    if before.node? place ≠ some node then
      match node with
      | .directory => IO.FS.createDirAll (cwd / spelling place)
      | .file content => IO.FS.writeBinFile (cwd / spelling place) (dataOf content)

def now : IO Moment := do
  let t ← Std.Time.PlainDateTime.now
  pure {
    year := .ofInt t.date.year.toInt, month := .ofInt t.date.month.val, day := .ofInt t.date.day.val
    hour := .ofInt t.time.hour.val, minute := .ofInt t.time.minute.val, second := .ofInt t.time.second.val }

def run (arguments : List Bytes) : IO UInt32 := do
  let moment ← now
  let start ← IO.monoNanosNow
  let disk ← diskFor arguments
  let name := RunId.ofBits ((← IO.getRandomBytes 16).data.foldl (fun n b => n * 256 + b.toNat) 0)
  let result := Cli.execute { disk, now := moment, run := name } arguments
  keep disk result.disk
  (← IO.getStdout).write (dataOf result.output)
  let duration := Cli.Duration.text ((← IO.monoNanosNow) - start)
  let notes ← IO.getStderr
  notes.write (dataOf (result.diagnostics moment.clock name duration))
  match result.error with
  | none => pure 0
  | some e =>
    notes.write (dataOf (Dump.endLine (moment.clock ++ utf8 " " ++ e.message)))
    pure 1

end ProtoRecovery.Program

def main (arguments : List String) : IO UInt32 :=
  ProtoRecovery.Program.run (arguments.map ProtoRecovery.utf8)
