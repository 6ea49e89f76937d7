import ProtoRecovery.Sink.Basic

/-! # A sink that keeps texts by name -/
namespace ProtoRecovery

structure Memory where
  texts : List (Bytes × Bytes) := []
  deriving DecidableEq, Repr

namespace Memory

def get? (m : Memory) (name : Bytes) : Option Bytes := m.texts.lookup name

/-- The last text under a name counts. -/
def put (m : Memory) (name text : Bytes) : Memory :=
  { texts := (name, text) :: m.texts.filter fun entry => entry.1 != name }

def content (m : Memory) : List (Bytes × Bytes) := m.texts.mergeSort fun a b => Bytes.le a.1 b.1

def names (m : Memory) : List Bytes := m.content.map (·.1)

/-- Takes every text that has a name, cancelled or not. -/
def sink : Sink Memory where
  write _ name text m := if name.isEmpty then (some (.invalidName name), m) else (none, m.put name text)

end Memory
end ProtoRecovery
