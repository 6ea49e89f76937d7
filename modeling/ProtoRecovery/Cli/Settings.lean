import ProtoRecovery.Cli.Flag
import ProtoRecovery.Render
import ProtoRecovery.Source.Basic

/-! # The settings of a dump on the command line -/
namespace ProtoRecovery.Cli

structure Settings where
  /-- Descriptor sets to read. -/
  sets : List Bytes := []
  /-- Source texts to compile, and where to look for them. -/
  texts : List Bytes := []
  importPaths : List Bytes := []
  /-- The server to ask, unless it is empty, and for how many nanoseconds. -/
  server : Bytes := []
  timeout : Int := 10 * Duration.second
  registry : Bool := false
  packages : List Bytes := []
  out : Bytes := []
  stamped : Bool := false
  qualified : Bool := false
  messagesFirst : Bool := false
  width : Int64 := 4
  tabs : Bool := false
  importLeads : List Bytes := []
  workers : Int64 := 0
  keepGoing : Bool := false
  verbose : Bool := false
  /-- Where spans are sent, unless it is empty, and under which name. -/
  collector : Bytes := []
  service : Bytes := utf8 "protodump"
  deriving DecidableEq, Repr

namespace Settings

/-- All flags of a dump. One that can be repeated adds to a list; of any other the last counts. -/
def flags : List (Flag Settings) := [
  ⟨utf8 "source.protoset", .text fun v s => { s with sets := s.sets ++ [v] }⟩,
  ⟨utf8 "source.proto", .text fun v s => { s with texts := s.texts ++ [v] }⟩,
  ⟨utf8 "source.import-path", .text fun v s => { s with importPaths := s.importPaths ++ [v] }⟩,
  ⟨utf8 "source.reflect", .text fun v s => { s with server := v }⟩,
  ⟨utf8 "source.reflect-timeout", .duration fun v s => { s with timeout := v }⟩,
  ⟨utf8 "source.registry", .switch fun v s => { s with registry := v }⟩,
  ⟨utf8 "source.package", .text fun v s => { s with packages := s.packages ++ [v] }⟩,
  ⟨utf8 "out", .text fun v s => { s with out := v }⟩,
  ⟨utf8 "out.timestamp", .switch fun v s => { s with stamped := v }⟩,
  ⟨utf8 "render.qualified-types", .switch fun v s => { s with qualified := v }⟩,
  ⟨utf8 "render.messages-first", .switch fun v s => { s with messagesFirst := v }⟩,
  ⟨utf8 "render.indent", .number fun v s => { s with width := v }⟩,
  ⟨utf8 "render.tabs", .switch fun v s => { s with tabs := v }⟩,
  ⟨utf8 "render.strip-import-prefix", .text fun v s => { s with importLeads := s.importLeads ++ [v] }⟩,
  ⟨utf8 "workers", .number fun v s => { s with workers := v }⟩,
  ⟨utf8 "keep-going", .switch fun v s => { s with keepGoing := v }⟩,
  ⟨utf8 "v", .switch fun v s => { s with verbose := v }⟩,
  ⟨utf8 "otel.endpoint", .text fun v s => { s with collector := v }⟩,
  ⟨utf8 "otel.service", .text fun v s => { s with service := v }⟩]

def searchPaths (s : Settings) : List Bytes := if s.importPaths.isEmpty then [Path.here] else s.importPaths

/-- The choices in rendering. Without leads of its own the usual ones are taken off imports. -/
def renderOptions (s : Settings) : Except LayoutError RenderOptions := do
  let indent ← Indent.ofCode (if s.tabs then 0x09 else 0x20) s.width
  let base : RenderOptions := {
    typeNames := if s.qualified then .qualified else .short
    order := if s.messagesFirst then .messagesFirst else .servicesFirst
    indent }
  pure (if s.importLeads.isEmpty then base else { base with importLeads := s.importLeads })

end Settings
end ProtoRecovery.Cli
