/-! # Byte strings: literals, splitting, joining and byte order -/
namespace ProtoRecovery

/-- A text as a descriptor stores it: any bytes, by convention UTF-8. -/
abbrev Bytes := List UInt8

def utf8 (s : String) : Bytes := s.toUTF8.data.toList

namespace Bytes

def newline : UInt8 := 0x0a
def dot : UInt8 := 0x2e
def slash : UInt8 := 0x2f

/-- The pieces between the occurrences of `sep`; there is always at least one. -/
def split (sep : UInt8) : Bytes → List Bytes
  | [] => [[]]
  | b :: r =>
    if b = sep then [] :: split sep r
    else match split sep r with
      | [] => [[b]]
      | piece :: pieces => (b :: piece) :: pieces

def join (sep : UInt8) : List Bytes → Bytes
  | [] => []
  | [piece] => piece
  | piece :: next :: pieces => piece ++ sep :: join sep (next :: pieces)

/-- What is left of `t` after `lead`, when `t` starts with it. -/
def after? : (lead t : Bytes) → Option Bytes
  | [], t => some t
  | _ :: _, [] => none
  | a :: lead, b :: t => if a = b then after? lead t else none

def startsWith (lead t : Bytes) : Bool := (after? lead t).isSome

def occursIn (part : Bytes) : Bytes → Bool
  | [] => part.isEmpty
  | b :: r => startsWith part (b :: r) || occursIn part r

def replace (old new : UInt8) (t : Bytes) : Bytes := t.map fun b => if b = old then new else b

def cut (sep : UInt8) : Bytes → Bytes × Option Bytes
  | [] => ([], none)
  | b :: r => if b = sep then ([], some r) else let (before, rest) := cut sep r; (b :: before, rest)

def lastSegment (name : Bytes) : Bytes := (split dot name).getLastD []

/-- Lexicographic order by byte value; a proper initial part comes first. -/
def le : Bytes → Bytes → Bool
  | [], _ => true
  | _ :: _, [] => false
  | a :: x, b :: y => a < b || (a == b && le x y)

theorem le_total (a b : Bytes) : le a b || le b a := by
  induction a generalizing b with
  | nil => simp [le]
  | cons x a ih =>
    cases b with
    | nil => simp [le]
    | cons y b => grind [le]

theorem le_trans (a b c : Bytes) (hab : le a b) (hbc : le b c) : le a c := by
  induction a generalizing b c with
  | nil => simp [le]
  | cons x a ih =>
    cases b with
    | nil => simp [le] at hab
    | cons y b =>
      cases c with
      | nil => simp [le] at hbc
      | cons z c => grind [le]

def sort (ts : List Bytes) : List Bytes := ts.mergeSort le

theorem sort_perm (ts : List Bytes) : (sort ts).Perm ts := List.mergeSort_perm ts le

theorem sort_pairwise (ts : List Bytes) : (sort ts).Pairwise fun a b => le a b :=
  List.pairwise_mergeSort le_trans le_total ts

end Bytes
end ProtoRecovery
