import ProtoRecovery.Source.Standard.Text

/-! # Standard files for values of common types -/
namespace ProtoRecovery.Standard

def package : String := "google.protobuf"

def any : Bytes :=
  file third package [] [message "Any" ["string type_url = 1;", "bytes value = 2;"]]

def sourceContext : Bytes :=
  file third package [] [message "SourceContext" ["string file_name = 1;"]]

def duration : Bytes :=
  file third package [] [message "Duration" ["int64 seconds = 1;", "int32 nanos = 2;"]]

def timestamp : Bytes :=
  file third package [] [message "Timestamp" ["int64 seconds = 1;", "int32 nanos = 2;"]]

def empty : Bytes := file third package [] [message "Empty" []]

def fieldMask : Bytes := file third package [] [message "FieldMask" ["repeated string paths = 1;"]]

def wrapper (name type : String) : String := message name [type ++ " value = 1;"]

def wrappers : Bytes :=
  file third package [] [
    wrapper "DoubleValue" "double", wrapper "FloatValue" "float", wrapper "Int64Value" "int64",
    wrapper "UInt64Value" "uint64", wrapper "Int32Value" "int32", wrapper "UInt32Value" "uint32",
    wrapper "BoolValue" "bool", wrapper "StringValue" "string", wrapper "BytesValue" "bytes"]

/-- A map is a repeated message of keys and values. -/
def struct : Bytes :=
  file third package [] [
    enum "NullValue" [("NULL_VALUE", 0)],
    message "Struct" [
      "repeated FieldsEntry fields = 1;",
      message "FieldsEntry" ["string key = 1;", "Value value = 2;"]],
    message "Value" [
      block "oneof" "kind" [
        "NullValue null_value = 1;", "double number_value = 2;", "string string_value = 3;",
        "bool bool_value = 4;", "Struct struct_value = 5;", "ListValue list_value = 6;"]],
    message "ListValue" ["repeated Value values = 1;"]]

end ProtoRecovery.Standard
