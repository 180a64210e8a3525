/-!
# Grids of rationals

A grid holds rational numbers in rows and columns, with its size in its type, so that a position
is always inside.
-/

namespace WorkedAlgebra

/-- Rational numbers in `r` rows and `c` columns. -/
structure Grid (r c : Nat) where
  cells : Vector (Vector Rat c) r
deriving DecidableEq, Repr

namespace Grid

variable {r c : Nat}

def ofFn (f : Fin r → Fin c → Rat) : Grid r c :=
  ⟨Vector.ofFn fun i => Vector.ofFn (f i)⟩

def get (g : Grid r c) (i : Fin r) (j : Fin c) : Rat :=
  (g.cells[i])[j]

@[simp] theorem get_ofFn (f : Fin r → Fin c → Rat) (i : Fin r) (j : Fin c) :
    (ofFn f).get i j = f i j := by
  simp [get, ofFn]

@[ext] theorem ext {g h : Grid r c} (H : ∀ i j, g.get i j = h.get i j) : g = h := by
  obtain ⟨g⟩ := g
  obtain ⟨h⟩ := h
  congr 1
  ext i hi j hj
  exact H ⟨i, hi⟩ ⟨j, hj⟩

def row (g : Grid r c) (i : Fin r) : List Rat :=
  (List.finRange c).map (g.get i)

def toRows (g : Grid r c) : List (List Rat) :=
  (List.finRange r).map g.row

def entries (g : Grid r c) : List Rat :=
  g.toRows.flatten

/-- The grid of a list of rows of one length. -/
def ofRows (rows : List (List Rat)) (even : ∀ row ∈ rows, row.length = c) :
    Grid rows.length c :=
  ofFn fun i j => (rows.get i).get (j.cast (even _ (rows.get_mem i)).symm)

/-- The grid whose entries, row by row, are those of a list of the right length. -/
def ofEntries (entries : List Rat) (size : entries.length = r * c) : Grid r c :=
  ofFn fun i j => entries.get ⟨i * c + j, by
    have := Nat.mul_le_mul_right c (Nat.succ_le_of_lt i.isLt)
    have := j.isLt
    rw [size]
    grind⟩

def transpose (g : Grid r c) : Grid c r :=
  ofFn fun j i => g.get i j

def identity (n : Nat) : Grid n n :=
  ofFn fun i j => if i = j then 1 else 0

/-- The product: each entry is a row of the first dotted with a column of the second. -/
def mul {n m k : Nat} (g : Grid n m) (h : Grid m k) : Grid n k :=
  ofFn fun i j => (List.finRange m).foldl (fun sum l => sum + g.get i l * h.get l j) 0

/-- Two grids with as many rows, side by side. -/
def beside {d : Nat} (g : Grid r c) (h : Grid r d) : Grid r (c + d) :=
  ofFn fun i j => Fin.addCases (g.get i) (h.get i) j

end Grid
end WorkedAlgebra
