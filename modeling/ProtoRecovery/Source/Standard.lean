import ProtoRecovery.Source.Standard.Descriptors
import ProtoRecovery.Source.Standard.Types

/-! # Standard files, which need not be on any disk -/
namespace ProtoRecovery.Standard

def texts : List (Bytes × Bytes) := [
  (utf8 "google/protobuf/any.proto", any),
  (utf8 "google/protobuf/api.proto", api),
  (utf8 "google/protobuf/compiler/plugin.proto", plugin),
  (utf8 "google/protobuf/descriptor.proto", descriptor),
  (utf8 "google/protobuf/duration.proto", duration),
  (utf8 "google/protobuf/empty.proto", empty),
  (utf8 "google/protobuf/field_mask.proto", fieldMask),
  (utf8 "google/protobuf/source_context.proto", sourceContext),
  (utf8 "google/protobuf/struct.proto", struct),
  (utf8 "google/protobuf/timestamp.proto", timestamp),
  (utf8 "google/protobuf/type.proto", type),
  (utf8 "google/protobuf/wrappers.proto", wrappers)] ++ targets

end ProtoRecovery.Standard
