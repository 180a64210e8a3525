import WorkedAlgebra.Method.RowOp

/-!
# Gauss–Jordan elimination

Elimination is carried out as a list of row operations, column by column. A column in which some
row from the next free one on is nonzero receives a pivot: the row is brought up, scaled to one,
and subtracted from all others.
-/

namespace WorkedAlgebra

/-- The state of an elimination. Each pivot is kept with its column and its value before scaling. -/
structure Reduction (r c : Nat) where
  ops : List (RowOp r)
  grid : Grid r c
  pivots : List (Fin c × Rat)

namespace Reduction

variable {r c : Nat}

def start (g : Grid r c) : Reduction r c := ⟨[], g, []⟩

/-- The first row from `top` on that is nonzero in a column. -/
def pivotRow? (g : Grid r c) (top : Nat) (col : Fin c) : Option (Fin r) :=
  (List.finRange r).find? fun i => top ≤ i.val && g.get i col != 0

/-- The exchange that brings a row up. -/
def raise (p found : Fin r) : List (RowOp r) :=
  if found = p then [] else [.swap p found]

/-- The scaling that turns a pivot into one. -/
def normalize (p : Fin r) (pivot : Rat) : List (RowOp r) :=
  if pivot = 1 then [] else [.scale p pivot⁻¹]

/-- The subtractions of row `p` that clear a column outside it. -/
def clear (g : Grid r c) (p : Fin r) (col : Fin c) : List (RowOp r) :=
  (List.finRange r).filterMap fun i =>
    if i = p ∨ g.get i col = 0 then none else some (.subtract i (g.get i col) p)

/-- The elimination continued by some row operations. -/
def perform (s : Reduction r c) (ops : List (RowOp r)) : Reduction r c :=
  { s with ops := s.ops ++ ops, grid := RowOp.applyAll ops s.grid }

/-- A pivot from row `found` placed in row `p`, with its column cleared outside it. -/
def placePivot (s : Reduction r c) (p found : Fin r) (col : Fin c) : Reduction r c :=
  let pivot := s.grid.get found col
  let t := s.perform (raise p found ++ normalize p pivot)
  { t.perform (clear t.grid p col) with pivots := s.pivots ++ [(col, pivot)] }

def column (s : Reduction r c) (col : Fin c) : Reduction r c :=
  if h : s.pivots.length < r then
    match pivotRow? s.grid s.pivots.length col with
    | some found => s.placePivot ⟨s.pivots.length, h⟩ found col
    | none => s
  else s

def swaps (s : Reduction r c) : Nat :=
  s.ops.countP RowOp.isSwap

def pivotColumns (s : Reduction r c) : List (Fin c) :=
  s.pivots.map Prod.fst

end Reduction

/-- The elimination of a grid with pivots in the given columns. -/
def reduce {r c : Nat} (columns : List (Fin c)) (g : Grid r c) : Reduction r c :=
  columns.foldl Reduction.column (.start g)

end WorkedAlgebra
