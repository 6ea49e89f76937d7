import ProtoRecovery.Text.Bytes

/-! # Help texts -/
namespace ProtoRecovery.Cli

def linesText (lines : List String) : Bytes := lines.flatMap fun l => utf8 l ++ [Bytes.newline]

def programUsage : Bytes := linesText [
    "protodump: recover .proto sources from compiled descriptors",
    "",
    "USAGE:",
    "  protodump <command> [flags]",
    "",
    "COMMANDS:",
    "  dump             Render descriptors back into .proto files",
    "  help             Show help for any command"]

def dumpUsage : Bytes := linesText [
    "dump FLAGS:",
    "  -source.protoset <file>             Read a serialized FileDescriptorSet. Repeatable",
    "  -source.proto <file>                Compile a .proto file. Repeatable",
    "  -source.import-path <dir>           Import path for -source.proto. Repeatable",
    "  -source.reflect <host:port>         Fetch descriptors over gRPC server reflection",
    "  -source.reflect-timeout <duration>  Reflection timeout, e.g. 10s (default: 10s)",
    "  -source.registry                    Dump the descriptors linked into this binary",
    "  -source.package <name>              Keep only this package and its sub-packages.",
    "                                      Repeatable",
    "  -out <dir|->                        Output directory, or - for stdout (required)",
    "  -out.timestamp                      Write into a timestamped sub-directory",
    "  -render.qualified-types             Keep fully qualified type names",
    "  -render.messages-first              Emit messages before enums and services",
    "  -render.indent N                    Indent width (default: 4)",
    "  -render.tabs                        Indent with tabs",
    "  -render.strip-import-prefix <p>     Strip prefix from import paths. Repeatable",
    "                                      (default: ./)",
    "  -workers N                          Concurrent files (default: GOMAXPROCS)",
    "  -keep-going                         Skip files that fail and report them at the end",
    "  -v                                  Log progress to stderr",
    "  -otel.endpoint <addr>               OTLP collector endpoint",
    "  -otel.service <name>                OpenTelemetry service name (default: protodump)"]

end ProtoRecovery.Cli
