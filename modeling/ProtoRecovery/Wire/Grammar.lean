/-! # The messages of a descriptor set: which of their fields are messages or lists of numbers -/
namespace ProtoRecovery.Wire

inductive MessageKind
  | fileSet | file | message | extensionRange | extensionRangeOptions | declaration | field
  | oneof | enum | enumValue | service | method | fileOptions | messageOptions | fieldOptions
  | oneofOptions | enumOptions | enumValueOptions | serviceOptions | methodOptions
  | editionDefault | featureSupport | featureSet | languageFeatures | uninterpretedOption
  | namePart | sourceInfo | location | range
  deriving DecidableEq, Repr

/-- A field whose content has an inner form: a message, or numbers that may be packed. -/
inductive Content | submessage (kind : MessageKind) | numbers deriving DecidableEq, Repr

namespace MessageKind

def contents : MessageKind → List (Nat × Content)
  | fileSet => [(1, .submessage file)]
  | file =>
    [(4, .submessage message), (5, .submessage enum), (6, .submessage service),
      (7, .submessage field), (8, .submessage fileOptions), (9, .submessage sourceInfo),
      (10, .numbers), (11, .numbers)]
  | message =>
    [(2, .submessage field), (3, .submessage message), (4, .submessage enum),
      (5, .submessage extensionRange), (6, .submessage field), (7, .submessage messageOptions),
      (8, .submessage oneof), (9, .submessage range)]
  | extensionRange => [(3, .submessage extensionRangeOptions)]
  | extensionRangeOptions =>
    [(2, .submessage declaration), (50, .submessage featureSet),
      (999, .submessage uninterpretedOption)]
  | field => [(8, .submessage fieldOptions)]
  | oneof => [(2, .submessage oneofOptions)]
  | enum => [(2, .submessage enumValue), (3, .submessage enumOptions), (4, .submessage range)]
  | enumValue => [(3, .submessage enumValueOptions)]
  | service => [(2, .submessage method), (3, .submessage serviceOptions)]
  | method => [(4, .submessage methodOptions)]
  | fileOptions => [(50, .submessage featureSet), (999, .submessage uninterpretedOption)]
  | messageOptions => [(12, .submessage featureSet), (999, .submessage uninterpretedOption)]
  | fieldOptions =>
    [(19, .numbers), (20, .submessage editionDefault), (21, .submessage featureSet),
      (22, .submessage featureSupport), (999, .submessage uninterpretedOption)]
  | oneofOptions => [(1, .submessage featureSet), (999, .submessage uninterpretedOption)]
  | enumOptions => [(7, .submessage featureSet), (999, .submessage uninterpretedOption)]
  | enumValueOptions =>
    [(2, .submessage featureSet), (4, .submessage featureSupport),
      (999, .submessage uninterpretedOption)]
  | serviceOptions => [(34, .submessage featureSet), (999, .submessage uninterpretedOption)]
  | methodOptions => [(35, .submessage featureSet), (999, .submessage uninterpretedOption)]
  | featureSet => [(1002, .submessage languageFeatures)]
  | uninterpretedOption => [(2, .submessage namePart)]
  | sourceInfo => [(1, .submessage location)]
  | location => [(1, .numbers), (2, .numbers)]
  | declaration | editionDefault | featureSupport | languageFeatures | namePart | range => []

def content? (kind : MessageKind) (number : Nat) : Option Content := kind.contents.lookup number

end MessageKind
end ProtoRecovery.Wire
