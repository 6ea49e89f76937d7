import ProtoRecovery.Text.Bytes

/-! # Writing down source text piece by piece -/
namespace ProtoRecovery.Standard

def block (keyword name : String) (content : List String) : String :=
  keyword ++ " " ++ name ++ " \x7b " ++ String.join (content.map (· ++ " ")) ++ "\x7d"

def message (name : String) (content : List String) : String := block "message" name content

def enum (name : String) (values : List (String × Int)) : String :=
  block "enum" name (values.map fun (value, number) => value ++ " = " ++ toString number ++ ";")

def file (heading package : String) (imports declarations : List String) : Bytes :=
  utf8 (heading ++ String.join (imports.map fun path => "import \"" ++ path ++ "\";") ++
    "package " ++ package ++ ";" ++ String.join declarations)

/-- The heading of the third version of the language; the second needs none. -/
def third : String := "syntax = \"proto3\";"

end ProtoRecovery.Standard
