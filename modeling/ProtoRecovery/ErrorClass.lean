/-! # Classes of errors, from the most telling to the least -/
namespace ProtoRecovery

inductive ErrorClass
  | configuration | frozen | malformedSchema | unsupportedType | noInput | invalidName | cancelled
  | helpWanted | undecodable | notFound | notDirectory | isDirectory | nameTooLong
  | invalidArgument | other
  deriving DecidableEq, Repr

namespace ErrorClass

def all : List ErrorClass :=
  [configuration, frozen, malformedSchema, unsupportedType, noInput, invalidName, cancelled,
    helpWanted, undecodable, notFound, notDirectory, isDirectory, nameTooLong, invalidArgument]

/-- The class of several errors together: the first that one of them has. -/
def ofMany (classes : List ErrorClass) : ErrorClass :=
  (all.find? fun c => classes.contains c).getD other

end ErrorClass
end ProtoRecovery
