import ProtoRecovery.Sink.Basic
import ProtoRecovery.Sink.Stamp

/-! # A sink that writes files below a directory -/
namespace ProtoRecovery

structure Directory where
  root : Bytes
  deriving DecidableEq, Repr

namespace Directory

def unnamed : Bytes := utf8 "sink: output directory is required"

def ofRoot? (root : Bytes) : Option Directory := if root.isEmpty then none else some ⟨root⟩

def stamped (d : Directory) (t : Moment) : Directory := ⟨(Path.join d.root t.stamp).text⟩

def path (d : Directory) (name : Bytes) : Except SinkError Path :=
  if Path.isLocal name then .ok (Path.join d.root name) else .error (.invalidName name)

/-- Writes under the names that have a path; a cancelled write does nothing. -/
def sink (d : Directory) : Sink Disk where
  write cancelled name text disk :=
    if cancelled then (some .cancelled, disk)
    else match d.path name with
      | .error e => (some e, disk)
      | .ok path =>
        let (error, disk) := Disk.writeBelow path text disk
        (error.map .disk, disk)

end Directory

end ProtoRecovery
