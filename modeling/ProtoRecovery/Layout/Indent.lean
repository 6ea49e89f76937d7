import ProtoRecovery.ErrorClass
import ProtoRecovery.Text.Blank
import ProtoRecovery.Text.Quoted

/-! # Indentation settings and the errors of laying out lines -/
namespace ProtoRecovery

inductive LayoutError
  | badChar (code : Int32)
  | badWidth (width : Int64)
  | badLevel (level : Int64)
  | unopened
  | frozen
  deriving DecidableEq, Repr

namespace LayoutError

def settings : Bytes := utf8 "srcwriter: invalid configuration: "

def message : LayoutError → Bytes
  | badChar code =>
    settings ++ utf8 "indentation character " ++ Text.quoteCode code ++ utf8 " is not whitespace"
  | badWidth width => settings ++ utf8 "indentation width " ++ Text.decimalInt width.toInt
  | badLevel level => settings ++ utf8 "indentation level " ++ Text.decimalInt level.toInt
  | unopened => settings ++ utf8 "close block at level 0"
  | frozen => utf8 "srcwriter: write after seal"

def errorClass : LayoutError → ErrorClass
  | frozen => .frozen
  | _ => .configuration

end LayoutError

/-- A character can indent when it is blank and does not end the line. -/
def canIndent (c : Char) : Bool := Text.isBlank c && c != '\n' && c != '\r'

/-- Usable indentation: a blank character and how often each level repeats it. -/
structure Indent where
  char : Char := ' '
  width : Int64 := 4
  char_ok : canIndent char = true := by decide
  width_pos : 0 < width := by decide
  deriving DecidableEq, Repr

/-- Checks settings given as numbers; the character is judged before the width. -/
def Indent.ofCode (code : Int32) (width : Int64) : Except LayoutError Indent :=
  match Text.charOfCode? code with
  | none => .error (.badChar code)
  | some c =>
    if hc : canIndent c = true then
      if hw : 0 < width then .ok ⟨c, width, hc, hw⟩ else .error (.badWidth width)
    else .error (.badChar code)

end ProtoRecovery
