import ProtoRecovery.Sink.Basic

/-! # A sink that writes all texts one after another -/
namespace ProtoRecovery

/-- What has been written: the content, how many sections it has, and how many were tried. -/
structure Stream where
  content : Bytes := []
  sections : Nat := 0
  attempts : Nat := 0
  deriving DecidableEq, Repr

namespace Stream

def titled (name text : Bytes) : Bytes := utf8 "// " ++ name ++ Bytes.newline :: text

def separator (s : Stream) : Bytes := if s.sections = 0 then [] else [Bytes.newline]

/-- Writes whole sections. Attempts for which the outlet fails leave nothing behind. -/
def sink (fails : Nat → Bool) : Sink Stream where
  write _ name text s :=
    if fails s.attempts then (some .brokenStream, { s with attempts := s.attempts + 1 })
    else (none,
      { content := s.content ++ s.separator ++ titled name text
        sections := s.sections + 1
        attempts := s.attempts + 1 })

end Stream
end ProtoRecovery
