import ProtoRecovery.Cli.Duration
import ProtoRecovery.ErrorClass
import ProtoRecovery.Text.Quoted

/-! # Flags: arguments that start with a hyphen and change settings -/
namespace ProtoRecovery.Cli

inductive FlagError
  | helpWanted
  | malformed (argument : Bytes)
  | unknown (name : Bytes)
  | valueMissing (name : Bytes)
  | badSwitch (name value : Bytes)
  | badValue (name value : Bytes) (fault : NumberFault)
  deriving DecidableEq, Repr

def NumberFault.message : NumberFault → Bytes
  | malformed => utf8 "parse error"
  | outOfRange => utf8 "value out of range"

namespace FlagError

def message : FlagError → Bytes
  | helpWanted => utf8 "flag: help requested"
  | malformed argument => utf8 "bad flag syntax: " ++ argument
  | unknown name => utf8 "flag provided but not defined: -" ++ name
  | valueMissing name => utf8 "flag needs an argument: -" ++ name
  | badSwitch name value =>
    utf8 "invalid boolean value " ++ Text.quote value ++ utf8 " for -" ++ name ++ utf8 ": " ++
      NumberFault.malformed.message
  | badValue name value fault =>
    utf8 "invalid value " ++ Text.quote value ++ utf8 " for flag -" ++ name ++ utf8 ": " ++ fault.message

def errorClass : FlagError → ErrorClass
  | helpWanted => .helpWanted
  | _ => .other

end FlagError

/-- What a flag takes, and how it changes settings. A switch needs no value. -/
inductive Setter (α : Type)
  | switch (set : Bool → α → α)
  | text (set : Bytes → α → α)
  | number (set : Int64 → α → α)
  | duration (set : Int → α → α)

structure Flag (α : Type) where
  name : Bytes
  setter : Setter α

/-- How an argument looks: one that is no flag, the one that ends the flags, a flag with the value
after its equals sign, or none of these. -/
inductive Shape | plain | ending | flag (name : Bytes) (value : Option Bytes) | malformed
  deriving DecidableEq, Repr

def Shape.ofFlag (t : Bytes) : Shape :=
  match t with
  | [] => .malformed
  | first :: _ =>
    if first = 0x2d || first = 0x3d then .malformed
    else let (name, value) := Bytes.cut 0x3d t; .flag name value

/-- One hyphen or two start a flag; a hyphen alone is no flag, and two alone end the flags. -/
def Shape.of : Bytes → Shape
  | [0x2d, 0x2d] => .ending
  | 0x2d :: 0x2d :: t => .ofFlag t
  | 0x2d :: first :: t => .ofFlag (first :: t)
  | _ => .plain

def readSwitch (t : Bytes) : Option Bool :=
  if (["1", "t", "T", "TRUE", "true", "True"].map utf8).contains t then some true
  else if (["0", "f", "F", "FALSE", "false", "False"].map utf8).contains t then some false
  else none

variable {α : Type}

def Flag.change (f : Flag α) (value : Bytes) : Except FlagError (α → α) :=
  match f.setter with
  | .switch set =>
    match readSwitch value with
    | some b => .ok (set b)
    | none => .error (.badSwitch f.name value)
  | .text set => .ok (set value)
  | .number set =>
    match readNumber value with
    | .ok n => .ok (set n)
    | .error fault => .error (.badValue f.name value fault)
  | .duration set =>
    match Duration.read? value with
    | some d => .ok (set d)
    | none => .error (.badValue f.name value .malformed)

/-- The flag that has a name. Without one, two names ask for help. -/
def findFlag (flags : List (Flag α)) (name : Bytes) : Except FlagError (Flag α) :=
  match flags.find? fun f => f.name == name with
  | some f => .ok f
  | none => .error (if name = utf8 "help" || name = utf8 "h" then .helpWanted else .unknown name)

/-- Whether a flag without a value does not take the next argument for one. -/
def Flag.isSwitch (f : Flag α) : Bool :=
  match f.setter with
  | .switch _ => true
  | _ => false

/-- Changes settings as the flags at the front say; gives them and the arguments that are left. -/
def readFlags (flags : List (Flag α)) : (settings : α) → (arguments : List Bytes) →
    Except FlagError (α × List Bytes)
  | settings, [] => .ok (settings, [])
  | settings, argument :: rest =>
    match Shape.of argument with
    | .plain => .ok (settings, argument :: rest)
    | .ending => .ok (settings, rest)
    | .malformed => .error (.malformed argument)
    | .flag name value => do
      let f ← findFlag flags name
      match value with
      | some value => readFlags flags ((← f.change value) settings) rest
      | none =>
        if f.isSwitch then readFlags flags ((← f.change (utf8 "true")) settings) rest
        else match rest with
          | [] => .error (.valueMissing name)
          | value :: rest => readFlags flags ((← f.change value) settings) rest

end ProtoRecovery.Cli
