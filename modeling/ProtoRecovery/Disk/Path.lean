import ProtoRecovery.Text.Bytes

/-! # Paths: components, cleaning and joining, by spelling alone -/
namespace ProtoRecovery

/-- A cleaned path: whether it starts at the root, and its components. Only a path that does not
start at the root can have the component `..`, and only at its front. -/
structure Path where
  rooted : Bool
  parts : List Bytes
  deriving DecidableEq, Repr

namespace Path

def here : Bytes := utf8 "."
def up : Bytes := utf8 ".."

/-- Adds a component to those so far, the last being first. Going up takes back a component; at
the root it stays there, and above the start it is kept. -/
def step (rooted : Bool) (stack : List Bytes) (part : Bytes) : List Bytes :=
  if part = [] || part = here then stack
  else if part = up then
    match stack with
    | [] => if rooted then [] else [up]
    | last :: before => if last = up then up :: stack else before
  else part :: stack

def clean (t : Bytes) : Path :=
  let rooted := t.head? == some Bytes.slash
  ⟨rooted, ((Bytes.split Bytes.slash t).foldl (step rooted) []).reverse⟩

/-- The spelling of a cleaned path; one without components is the root or the place itself. -/
def text (p : Path) : Bytes :=
  if p.rooted then Bytes.slash :: Bytes.join Bytes.slash p.parts
  else if p.parts.isEmpty then here
  else Bytes.join Bytes.slash p.parts

/-- A path below another, cleaned as a whole; below no path it stands for itself. -/
def join (base t : Bytes) : Path := if base.isEmpty then clean t else clean (base ++ Bytes.slash :: t)

def joinText (base t : Bytes) : Bytes := if base.isEmpty && t.isEmpty then [] else (join base t).text

def parent (p : Path) : Path := { p with parts := p.parts.dropLast }

/-- The path itself and those above it that have a component, from the outermost. -/
def steps (p : Path) : List Path :=
  (List.range p.parts.length).map fun n => { p with parts := p.parts.take (n + 1) }

/-- Whether a path stays where it starts: it has a name, and leads neither to the root nor up. -/
def isLocal (t : Bytes) : Bool :=
  let p := clean t
  !t.isEmpty && !p.rooted && p.parts.head? != some up

end Path
end ProtoRecovery
