import WorkedAlgebra.Token
import WorkedAlgebra.Wire.Value

/-!
# Tokens as JSON

A token is a record with one member, whose key tells what it is.
-/

namespace WorkedAlgebra

open Json

namespace Operator

def toJson (op : Operator) : Json :=
  .text op.key

def read : Reader Operator :=
  readName ofKey?

end Operator

namespace Arity

def key : Arity → String
  | unary => "unary"
  | binary => "binary"

def ofKey? (key : String) : Option Arity :=
  [unary, binary].find? fun arity => arity.key == key

def toJson (arity : Arity) : Json :=
  .text arity.key

def read : Reader Arity :=
  readName ofKey?

end Arity

namespace Bracket

def key : Bracket → String
  | opening => "open"
  | closing => "close"

def ofKey? (key : String) : Option Bracket :=
  [opening, closing].find? fun bracket => bracket.key == key

def toJson (bracket : Bracket) : Json :=
  .text bracket.key

def read : Reader Bracket :=
  readName ofKey?

end Bracket

namespace Token

def toJson : Token → Json
  | value v => .record [("value", v.toJson)]
  | operator op => .record [("operator", op.toJson)]
  | bracket b => .record [("bracket", b.toJson)]

def read : Reader Token :=
  readTagged (fun _ => none) fun key =>
    if key = "value" then some fun depth => value <$> Value.read depth
    else if key = "operator" then some fun depth => operator <$> Operator.read depth
    else if key = "bracket" then some fun depth => bracket <$> Bracket.read depth
    else none

def listToJson (tokens : List Token) : Json :=
  .ofList toJson tokens

def readList : Reader (List Token) :=
  Json.readList read

end Token
end WorkedAlgebra
