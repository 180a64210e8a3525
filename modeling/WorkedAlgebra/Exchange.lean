import WorkedAlgebra.Wire.Catalog
import WorkedAlgebra.Wire.Outcome

/-!
# The exchange of texts

The outermost interface, which takes and gives JSON texts.
-/

namespace WorkedAlgebra.Exchange

open Json

def unreadable (input : Input) (fault : ReadFault) : Outcome :=
  .ofReport (Fault.unreadable input fault.valueFault?).report

def outcome (tokens : String) (limits : Limits) : Outcome :=
  match readText Token.readList tokens with
  | .ok tokens => .ofTokens limits tokens
  | .error fault => unreadable .tokens fault

def answer (tokens : String) : String :=
  (outcome tokens .unlimited).toJson.render

/-- The text of the outcome of a text of tokens under a text of options, which is read first. -/
def answerUnder (tokens options : String) : String :=
  match readText Limits.read options with
  | .ok limits => (outcome tokens limits).toJson.render
  | .error fault => (unreadable .options fault).toJson.render

def catalog : String :=
  catalogJson.render

def reference : String :=
  WorkedAlgebra.reference

def version : String :=
  "0.1.0"

end WorkedAlgebra.Exchange
