import ProtoRecovery.Outline.OfSchema
import ProtoRecovery.Outline.Script

/-! # Rendering: a schema file as source text -/
namespace ProtoRecovery
open Outline

structure RenderOptions extends Style where
  order : Order := .servicesFirst
  indent : Indent := {}
  deriving DecidableEq, Repr

inductive RenderCause | schema (fault : Fault) | layout (error : LayoutError)
  deriving DecidableEq, Repr

structure RenderError where
  file : Bytes
  cause : RenderCause
  deriving DecidableEq, Repr

namespace RenderError

/-- How a message speaks of the file: by its quoted name, if it has one. -/
def fileLabel (name : Bytes) : Bytes := if name.isEmpty then utf8 "file" else Text.quote name

def message (e : RenderError) : Bytes :=
  utf8 "render " ++ fileLabel e.file ++ utf8 ": " ++
    match e.cause with
    | .schema fault => fault.message
    | .layout error => error.message

def errorClass (e : RenderError) : ErrorClass :=
  match e.cause with
  | .schema fault => fault.errorClass
  | .layout error => error.errorClass

end RenderError

/-- The source text of a file, or the first thing that is wrong with it. -/
def render (options : RenderOptions) (f : Schema.File) : Except RenderError Bytes :=
  match Outline.ofFile options.toStyle f with
  | .error fault => .error ⟨Schema.textOf f.name, .schema fault⟩
  | .ok outline =>
    match (Writer.run { indent := options.indent } (outline.script options.order)).result with
    | .error error => .error ⟨Schema.textOf f.name, .layout error⟩
    | .ok text => .ok text

end ProtoRecovery
