import WorkedAlgebra.Evaluation
import WorkedAlgebra.Expr.Parse

/-!
# Calculations

From a token list to its outcome: a check of its length, both passes of reading, and evaluation.
-/

namespace WorkedAlgebra

/-- The longest token list that is accepted; without a number there is no limit. -/
structure Limits where
  maxTokens : Option UInt64
deriving DecidableEq, Repr

inductive Input
  | tokens
  | options
deriving DecidableEq, Repr

def Input.name : Input → String
  | tokens => "tokens"
  | options => "options"

/-- Why a calculation failed. -/
inductive Fault
  | tooLong (tokens : Nat) (limit : UInt64)
  | unreadable (input : Input) (fault : Option ValueFault)
  | malformed (fault : ParseFault)
  | unworkable (fault : EvalFault)
deriving DecidableEq, Repr

/-- The report of a fault. What the reader of JSON itself says of an unreadable input, with its line
and column, is not worded. -/
def Fault.report : Fault → Report
  | tooLong tokens limit =>
    (Report.ofCode 109 ("expression has " ++ tokens.repr ++
      " tokens, more than the limit of " ++ limit.toNat.repr)).atToken limit
  | unreadable input fault =>
    .ofCode 110 ("could not read " ++ input.name ++
      match fault with
      | some f => ": " ++ f.message
      | none => "")
  | malformed fault => fault.report
  | unworkable fault => fault.report

namespace Limits

def unlimited : Limits := ⟨none⟩

def check (limits : Limits) (tokens : List Token) : Except Fault Unit :=
  match limits.maxTokens with
  | some limit =>
    if limit.toNat < tokens.length then .error (.tooLong tokens.length limit) else .ok ()
  | none => .ok ()

end Limits

/-- The expression and the solutions of a token list, with what is reported on the way. -/
def calculateTraced (limits : Limits) (tokens : List Token) : Traced Fault (Expr × WorkTree) := do
  .emit (.started tokens.length)
  .ofExcept (limits.check tokens)
  let e ← (Expr.read tokens).mapFault .malformed
  let tree ← e.evaluateTraced.mapFault .unworkable
  pure (e, tree)

/-- The solutions of a token list; there are none for a lone value. -/
def calculate (limits : Limits) (tokens : List Token) : Except Fault WorkTree :=
  (calculateTraced limits tokens).outcome.map Prod.snd

/-- What a caller receives: the answer, the solutions and their steps, or the report of a
failure. -/
structure Outcome where
  success : Bool
  answer : Option Value
  tree : WorkTree
  trace : List Step
  error : Option Report
deriving DecidableEq, Repr

namespace Outcome

def ofReport (report : Report) : Outcome :=
  ⟨false, none, .leaf, [], some report⟩

/-- The outcome of an expression that was worked; the answer of a value is the value. -/
def ofWork (e : Expr) (tree : WorkTree) : Outcome :=
  ⟨true, tree.answer?.or e.value?, tree, tree.trace, none⟩

def ofResult : Except Fault (Expr × WorkTree) → Outcome
  | .ok (e, tree) => ofWork e tree
  | .error fault => ofReport fault.report

def ofTokens (limits : Limits) (tokens : List Token) : Outcome :=
  ofResult (calculateTraced limits tokens).outcome

end Outcome

structure Request where
  tokens : List Token
  limits : Limits
deriving DecidableEq, Repr

def Request.outcome (request : Request) : Outcome :=
  .ofTokens request.limits request.tokens

end WorkedAlgebra
