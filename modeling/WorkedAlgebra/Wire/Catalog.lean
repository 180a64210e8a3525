import WorkedAlgebra.Catalog
import WorkedAlgebra.Wire.Token

/-!
# The catalog as JSON

An entry of the catalog is a record; the catalog is the list of its entries.
-/

namespace WorkedAlgebra

open Json

namespace CatalogEntry

def toJson (entry : CatalogEntry) : Json :=
  .record
    ([("operator", entry.operator.toJson), ("name", .text entry.name),
      ("symbol", .text entry.symbol), ("arity", entry.arity.toJson),
      ("rank", .number entry.rank.toNat)] ++
      optionalMember "operands" .text entry.operands ++ [("supported", .bool entry.supported)])

structure Draft where
  operator : Option Operator
  name : Option String
  symbol : Option String
  arity : Option Arity
  rank : Option UInt8
  operands : Option (Option String)
  supported : Option Bool

def slots (depth : Nat) : List (Slot Draft) :=
  [needed "operator" Draft.operator (fun d v => { d with operator := some v })
      (Operator.read depth),
    needed "name" Draft.name (fun d v => { d with name := some v }) readString,
    needed "symbol" Draft.symbol (fun d v => { d with symbol := some v }) readString,
    needed "arity" Draft.arity (fun d v => { d with arity := some v }) (Arity.read depth),
    needed "rank" Draft.rank (fun d v => { d with rank := some v })
      (UInt8.ofNat <$> readNat UInt8.size),
    needed "operands" Draft.operands (fun d v => { d with operands := some v })
      (readOption readString),
    needed "supported" Draft.supported (fun d v => { d with supported := some v }) readBool]

def read : Reader CatalogEntry :=
  readRecord slots ⟨none, none, none, none, none, none, none⟩ fun d => do
    pure ⟨← required d.operator, ← required d.name, ← required d.symbol, ← required d.arity,
      ← required d.rank, d.operands.join, ← required d.supported⟩

end CatalogEntry

def catalogJson : Json :=
  .ofList CatalogEntry.toJson catalog

end WorkedAlgebra
