import WorkedAlgebra.Method.Binding

/-!
# The catalog of operators

The operator table together with what each operator can be applied to.
-/

namespace WorkedAlgebra

/-- An entry of the catalog. The rank is a byte, as data carries it. -/
structure CatalogEntry where
  operator : Operator
  name : String
  symbol : String
  arity : Arity
  rank : UInt8
  operands : Option String
  supported : Bool
deriving DecidableEq, Repr

namespace CatalogEntry

def ofOperator (op : Operator) : CatalogEntry :=
  ⟨op, op.name, op.symbol, op.arity, UInt8.ofNat op.strength, op.method?.map Method.expects,
    op.method?.isSome⟩

/-- How an operator is written with its operands. -/
def form (entry : CatalogEntry) : String :=
  match entry.arity with
  | .unary => entry.symbol ++ " X"
  | .binary => "X " ++ entry.symbol ++ " Y"

end CatalogEntry

def catalog : List CatalogEntry :=
  Operator.all.map .ofOperator

def padded (width : Nat) (text : String) : String :=
  text ++ String.ofList (List.replicate (width - text.length) ' ')

def referenceLine (entry : CatalogEntry) : String :=
  "  " ++ padded 22 entry.name ++ " " ++ padded 12 entry.form ++ " rank " ++
    entry.rank.toNat.repr ++ "  " ++ entry.operands.getD "not supported yet" ++ "\n"

/-- The catalog as plain text, loosest operators first. -/
def reference : String :=
  "matstep operators (rank: higher binds tighter)\n" ++
    String.join ((catalog.mergeSort fun a b => a.rank ≤ b.rank).map referenceLine)

end WorkedAlgebra
