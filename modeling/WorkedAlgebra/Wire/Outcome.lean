import WorkedAlgebra.Calculation
import WorkedAlgebra.Wire.Solution

/-!
# Requests and outcomes as JSON

Reports, limits, requests and outcomes are records. A report is taken as it is written: its kind
need not fit its code.
-/

namespace WorkedAlgebra

open Json

def readWord : Reading UInt64 :=
  UInt64.ofNat <$> readNat UInt64.size

def wordToJson (n : UInt64) : Json :=
  .number n.toNat

namespace Report

def toJson (r : Report) : Json :=
  .record
    (("code", .number r.code.toNat) :: ("kind", .text r.kind.key) :: ("message", .text r.message) ::
      (optionalMember "position" wordToJson r.position ++
        optionalMember "operator" Operator.toJson r.operator))

structure Draft where
  code : Option UInt16
  kind : Option ErrorKind
  message : Option String
  position : Option (Option UInt64)
  operator : Option (Option Operator)

def slots (depth : Nat) : List (Slot Draft) :=
  [needed "code" Draft.code (fun d v => { d with code := some v })
      (UInt16.ofNat <$> readNat UInt16.size),
    needed "kind" Draft.kind (fun d v => { d with kind := some v })
      (readName ErrorKind.ofKey? depth),
    needed "message" Draft.message (fun d v => { d with message := some v }) readString,
    needed "position" Draft.position (fun d v => { d with position := some v })
      (readOption readWord),
    needed "operator" Draft.operator (fun d v => { d with operator := some v })
      (readOption (Operator.read depth))]

def read : Reader Report :=
  readRecord slots ⟨none, none, none, none, none⟩ fun d => do
    pure ⟨← required d.code, ← required d.kind, ← required d.message, d.position.join,
      d.operator.join⟩

end Report

namespace Limits

def toJson (limits : Limits) : Json :=
  .record (optionalMember "max_tokens" wordToJson limits.maxTokens)

def slots (_depth : Nat) : List (Slot (Option (Option UInt64))) :=
  [spare "max_tokens" id (fun _ v => some v) (readOption readWord)]

def read : Reader Limits :=
  readRecord slots none fun d => pure ⟨d.join⟩

end Limits

namespace Request

def toJson (r : Request) : Json :=
  .record [("tokens", Token.listToJson r.tokens), ("options", r.limits.toJson)]

structure Draft where
  tokens : Option (List Token)
  limits : Option Limits

def slots (depth : Nat) : List (Slot Draft) :=
  [needed "tokens" Draft.tokens (fun d v => { d with tokens := some v }) (Token.readList depth),
    spare "options" Draft.limits (fun d v => { d with limits := some v }) (Limits.read depth)]

/-- A request from JSON; without options there is no limit. -/
def read : Reader Request :=
  readRecord slots ⟨none, none⟩ fun d => do
    pure ⟨← required d.tokens, d.limits.getD .unlimited⟩

end Request

namespace Outcome

def toJson (o : Outcome) : Json :=
  .record
    [("success", .bool o.success), ("answer", .ofOption Value.toJson o.answer),
      ("tree", o.tree.toJson), ("trace", .ofList Step.toJson o.trace),
      ("error", .ofOption Report.toJson o.error)]

structure Draft where
  success : Option Bool
  answer : Option (Option Value)
  tree : Option (Option WorkTree)
  trace : Option (List Step)
  error : Option (Option Report)

def slots (depth : Nat) : List (Slot Draft) :=
  [needed "success" Draft.success (fun d v => { d with success := some v }) readBool,
    needed "answer" Draft.answer (fun d v => { d with answer := some v })
      (readOption (Value.read depth)),
    needed "tree" Draft.tree (fun d v => { d with tree := some v })
      (readOption (WorkTree.read depth)),
    needed "trace" Draft.trace (fun d v => { d with trace := some v }) (readList Step.read depth),
    needed "error" Draft.error (fun d v => { d with error := some v })
      (readOption (Report.read depth))]

def read : Reader Outcome :=
  readRecord slots ⟨none, none, none, none, none⟩ fun d => do
    pure ⟨← required d.success, d.answer.join, d.tree.join.getD .leaf, ← required d.trace,
      d.error.join⟩

end Outcome
end WorkedAlgebra
