import WorkedAlgebra.Operator

/-!
# Reports

A report is the record that tells a caller why a computation failed.
-/

namespace WorkedAlgebra

inductive ErrorKind
  | malformedExpression
  | invalidOperandType
  | unsupportedOperator
  | operationFailure
deriving DecidableEq, Repr

namespace ErrorKind

def all : List ErrorKind :=
  [malformedExpression, invalidOperandType, unsupportedOperator, operationFailure]

def key : ErrorKind → String
  | malformedExpression => "malformed_expression"
  | invalidOperandType => "invalid_operand_type"
  | unsupportedOperator => "unsupported_operator"
  | operationFailure => "kernel_failure"

def phrase : ErrorKind → String
  | malformedExpression => "malformed expression"
  | invalidOperandType => "invalid operand type"
  | unsupportedOperator => "unsupported operator"
  | operationFailure => "evaluation failed"

def ofKey? (key : String) : Option ErrorKind :=
  all.find? fun kind => kind.key == key

/-- The kind of a code, by its hundreds; codes outside the table count as malformed. -/
def ofCode (code : UInt16) : ErrorKind :=
  if 200 ≤ code ∧ code ≤ 299 then invalidOperandType
  else if 300 ≤ code ∧ code ≤ 399 then unsupportedOperator
  else if 400 ≤ code ∧ code ≤ 499 then operationFailure
  else malformedExpression

theorem ofKey?_key (kind : ErrorKind) : ofKey? kind.key = some kind := by
  cases kind <;> rfl

end ErrorKind

/-- Why a computation failed. The position counts tokens from zero. -/
structure Report where
  code : UInt16
  kind : ErrorKind
  message : String
  position : Option UInt64
  operator : Option Operator
deriving DecidableEq, Repr

/-- A code as it is shown, such as `E107`. -/
def codeText (code : UInt16) : String :=
  "E" ++ code.toNat.repr

namespace Report

/-- A report that names neither place nor operator. -/
def ofCode (code : UInt16) (message : String) : Report :=
  ⟨code, .ofCode code, message, none, none⟩

def atToken (r : Report) (position : UInt64) : Report :=
  { r with position := some position }

def forOperator (r : Report) (op : Operator) : Report :=
  { r with operator := some op }

def invalidOperands (op : Operator) (expected found : String) : Report :=
  (ofCode 200 (op.name ++ " requires " ++ expected ++ ", found " ++ found)).forOperator op

def unsupported (op : Operator) : Report :=
  (ofCode 300 (op.name ++ " is not supported yet")).forOperator op

/-- An operation that is undefined on its operands, in its own words. -/
def operationFailure (op : Operator) (message : String) : Report :=
  (ofCode 400 message).forOperator op

def text (r : Report) : String :=
  let place := match r.position with
    | some p => " (at token " ++ p.toNat.repr ++ ")"
    | none => ""
  codeText r.code ++ " [" ++ r.kind.phrase ++ "] " ++ r.message ++ place

end Report
end WorkedAlgebra
