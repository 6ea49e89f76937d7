import ProtoRecovery.Outline.Basic
import ProtoRecovery.Outline.Clause

/-! # Reading source text back into an outline -/
namespace ProtoRecovery.Outline
open Schema

/-- A number of a field or an enum value, without leading zeros. -/
def number? (w : Bytes) : Option Int32 :=
  (Text.readDecimalInt w).bind fun n =>
    if Int32.minValue.toInt ≤ n && n ≤ Int32.maxValue.toInt && Text.decimalInt n = w then some (Int32.ofInt n)
    else none

def fieldLine? : Clause → Option FieldLine
  | .statement [label, type, name] (.equalsWord n) => do
    let label ← Label.ofKeyword? label
    let number ← number? n
    pure { label := some label, type, name, number }
  | .statement [type, name] (.equalsWord n) => do
    let number ← number? n
    pure { type, name, number }
  | _ => none

def enumValue? : Clause → Option (Bytes × Int32)
  | .statement [name] (.equalsWord n) => (number? n).map fun number => (name, number)
  | _ => none

def enum? (name : Bytes) (body : List Clause) : Option Enum := do
  let values ← body.mapM enumValue?
  pure { name, values }

mutual
/-- One clause of a message, added in front of what follows it. -/
def addMember (rest : Message) : Clause → Option Message
  | .block [keyword, name] body =>
    if keyword = utf8 "message" then do
      let inner ← message? name body
      pure { rest with nested := inner :: rest.nested }
    else if keyword = utf8 "enum" then do
      let inner ← enum? name body
      pure { rest with enums := inner :: rest.enums }
    else if keyword = utf8 "oneof" then do
      let members ← body.mapM fieldLine?
      pure { rest with items := .oneof name members :: rest.items }
    else none
  | .block _ _ => none
  | .statement words operand => do
    let line ← fieldLine? (.statement words operand)
    pure { rest with items := .field line :: rest.items }
def message? (name : Bytes) : List Clause → Option Message
  | [] => some { name }
  | clause :: clauses => do
    let rest ← message? name clauses
    addMember rest clause
end

def addTopLevel (rest : File) : Clause → Option File
  | .statement [keyword] (.equalsText t) =>
    if keyword = utf8 "syntax" then some { rest with heading := some (.dialect t) }
    else if keyword = utf8 "edition" then some { rest with heading := some (.edition t) }
    else none
  | .statement [keyword] (.text path) =>
    if keyword = utf8 "import" then some { rest with imports := { path } :: rest.imports } else none
  | .statement [keyword, access] (.text path) =>
    if keyword = utf8 "import" then
      if access = utf8 "public" then
        some { rest with imports := { access := .reexported, path } :: rest.imports }
      else if access = utf8 "weak" then
        some { rest with imports := { access := .weak, path } :: rest.imports }
      else none
    else none
  | .statement [keyword] .none =>
    if keyword = utf8 "package" then some { rest with package := some [] } else none
  | .statement [keyword, name] .none =>
    if keyword = utf8 "package" then some { rest with package := some name } else none
  | .block [keyword, name] body =>
    if keyword = utf8 "service" then
      if body.isEmpty then some { rest with services := name :: rest.services } else none
    else if keyword = utf8 "enum" then
      (enum? name body).map fun e => { rest with enums := e :: rest.enums }
    else if keyword = utf8 "message" then
      (message? name body).map fun m => { rest with messages := m :: rest.messages }
    else none
  | _ => none

def ofClauses? : List Clause → Option File
  | [] => some {}
  | clause :: clauses => do
    let rest ← ofClauses? clauses
    addTopLevel rest clause

def parse? (t : Bytes) : Option File := (clauses? t).bind ofClauses?

def unindented (t : Bytes) : Bytes :=
  Bytes.join Bytes.newline ((Bytes.split Bytes.newline t).map (·.dropWhile Token.isMargin))

/-- The outline that a text denotes, however its lines are indented. -/
def denoted? (t : Bytes) : Option File := parse? (unindented t)

end ProtoRecovery.Outline
