import WorkedAlgebra.Value.RatMatrix

/-!
# Blocks in machine words

Where sizes and positions arrive as 64-bit words they are multiplied as words, and the product may
wrap around. A block is a list of entries whose number was compared with such a product; it is a
matrix exactly when the product did not wrap.
-/

namespace WorkedAlgebra

/-- Entries, row by row, with their declared numbers of rows and columns. -/
structure Block where
  rows : UInt64
  cols : UInt64
  entries : List Rat
  display : DisplayMode
deriving DecidableEq

namespace Block

/-- The block of given entries, if their number is the product, as words, of its sizes. -/
def ofEntries (rows cols : UInt64) (entries : List Rat) (display : DisplayMode) :
    Except ValueFault Block :=
  if rows = 0 ∨ cols = 0 then .error .emptyMatrix
  else if entries.length = (rows * cols).toNat then .ok ⟨rows, cols, entries, display⟩
  else .error
    (.raggedRows (entries.length / cols.toNat) cols.toNat (entries.length % cols.toNat))

/-- The identity of size `n`, with as many entries as the word `n * n` says. -/
def identity (n : UInt64) : Except ValueFault Block :=
  let entry (i : Nat) : Rat := if i / n.toNat = i % n.toNat then 1 else 0
  ofEntries n n ((List.range (n * n).toNat).map entry) .fraction

/-- The matrix of a block that has as many entries as its sizes say. -/
def toMatrix? (b : Block) : Option RatMatrix :=
  if h : 0 < b.rows.toNat ∧ 0 < b.cols.toNat ∧
      b.entries.length = b.rows.toNat * b.cols.toNat then
    some ⟨_, _, Grid.ofEntries b.entries h.2.2, b.display, h.1, h.2.1⟩
  else none

end Block

namespace RatMatrix

/-- The entry at a row and a column, found by its place among all entries. A column beyond the width
lands in a later row. -/
def entryAt? (m : RatMatrix) (r c : UInt64) : Option Rat :=
  m.grid.entries[(r * m.cols.toUInt64 + c).toNat]?

/-- The row at a position, found by the places of its ends among all entries. -/
def rowAt? (m : RatMatrix) (r : UInt64) : Option (List Rat) :=
  let start := (r * m.cols.toUInt64).toNat
  let stop := ((r + 1) * m.cols.toUInt64).toNat
  if start ≤ stop ∧ stop ≤ m.grid.entries.length then
    some ((m.grid.entries.take stop).drop start)
  else none

end RatMatrix
end WorkedAlgebra
