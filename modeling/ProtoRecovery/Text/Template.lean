import ProtoRecovery.Text.Quoted

/-! # Templates: texts with placeholders for texts, numbers and quoted values -/
namespace ProtoRecovery.Text

inductive Argument | text (t : Bytes) | number (n : Int64) deriving DecidableEq, Repr

namespace Argument

def plain : Argument → Bytes
  | .text t => t
  | .number n => decimalInt n.toInt

def quoted : Argument → Bytes
  | .text t => quote t
  | .number n => quoteCode (if n < 0 || n > 0x10ffff then -1 else n.toInt32)

end Argument

/-- Fills the placeholders from left to right: `%s` and `%d` with a value as it is, `%q` with a
quoted value; `%%` is a percent sign. -/
def fill : Bytes → List Argument → Bytes
  | [], _ => []
  | 0x25 :: 0x25 :: r, args => 0x25 :: fill r args
  | 0x25 :: 0x71 :: r, arg :: args => arg.quoted ++ fill r args
  | 0x25 :: 0x73 :: r, arg :: args => arg.plain ++ fill r args
  | 0x25 :: 0x64 :: r, arg :: args => arg.plain ++ fill r args
  | b :: r, args => b :: fill r args

end ProtoRecovery.Text
