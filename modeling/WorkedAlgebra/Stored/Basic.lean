import WorkedAlgebra.Method.Fault
import WorkedAlgebra.Solution

/-!
# Matrices in storage

A stored matrix is a list of entries beside the numbers of rows and columns that they are meant to
fill. Its type does not say that they fit: a stored matrix is made by a check of the number of its
entries, an entry is read by a check of its place, and a reciprocal is taken by a check for zero.
-/

namespace WorkedAlgebra

/-- Entries, row by row, beside the numbers of rows and columns that they are meant to fill. -/
structure StoredMatrix where
  rows : Nat
  cols : Nat
  entries : List Rat
  display : DisplayMode
deriving DecidableEq, Repr

/-- Why a computation on stored matrices fails. -/
inductive StoredFault
  | undefined (fault : MethodFault)
  | misfit (fault : ValueFault)
  | outside
  | zeroReciprocal
deriving DecidableEq, Repr

/-- An item of a list at a place that has to lie inside. -/
def fetch {α : Type} (items : List α) (i : Nat) : Except StoredFault α :=
  match items[i]? with
  | some a => .ok a
  | none => .error .outside

/-- The reciprocal of a number that has to be nonzero. -/
def reciprocal (q : Rat) : Except StoredFault Rat :=
  if q = 0 then .error .zeroReciprocal else .ok q⁻¹

namespace StoredMatrix

/-- A stored matrix has a row, a column, and as many entries as both make. -/
structure WellFormed (a : StoredMatrix) : Prop where
  rows_pos : 0 < a.rows
  cols_pos : 0 < a.cols
  size : a.entries.length = a.rows * a.cols

instance (a : StoredMatrix) : Decidable a.WellFormed :=
  decidable_of_iff (0 < a.rows ∧ 0 < a.cols ∧ a.entries.length = a.rows * a.cols)
    ⟨fun h => ⟨h.1, h.2.1, h.2.2⟩, fun h => ⟨h.1, h.2, h.3⟩⟩

/-- The matrix of given sizes with given entries, which have to fit. -/
def make (rows cols : Nat) (entries : List Rat) (display : DisplayMode) :
    Except StoredFault StoredMatrix :=
  if rows = 0 ∨ cols = 0 then .error (.misfit .emptyMatrix)
  else if entries.length = rows * cols then .ok ⟨rows, cols, entries, display⟩
  else .error (.misfit (.raggedRows (entries.length / cols) cols (entries.length % cols)))

/-- The matrix of a list of rows, which have to be as long as the first one. -/
def ofRows (rows : List (List Rat)) (display : DisplayMode) : Except StoredFault StoredMatrix :=
  let cols := RatMatrix.widthOf rows
  match rows.findIdx? fun row => row.length != cols with
  | some i => .error (.misfit (.raggedRows i cols (rows.getD i []).length))
  | none => make rows.length cols rows.flatten display

/-- The entry in a row and a column, both of which have to lie inside. -/
def get (a : StoredMatrix) (i j : Nat) : Except StoredFault Rat :=
  if i < a.rows ∧ j < a.cols then fetch a.entries (i * a.cols + j) else .error .outside

/-- A row, all of whose entries have to lie inside. -/
def row (a : StoredMatrix) (i : Nat) : Except StoredFault (List Rat) :=
  let start := i * a.cols
  let stop := (i + 1) * a.cols
  if stop ≤ a.entries.length then .ok ((a.entries.take stop).drop start) else .error .outside

def toRows (a : StoredMatrix) : Except StoredFault (List (List Rat)) :=
  (List.range a.rows).mapM a.row

def isSquare (a : StoredMatrix) : Bool :=
  a.rows == a.cols

def withDisplay (a : StoredMatrix) (display : DisplayMode) : StoredMatrix :=
  { a with display }

/-- The matrix of a well-formed stored one. -/
def toMatrix (a : StoredMatrix) (h : a.WellFormed) : RatMatrix :=
  ⟨a.rows, a.cols, .ofEntries a.entries h.size, a.display, h.rows_pos, h.cols_pos⟩

end StoredMatrix

/-! ## Solutions in storage -/

inductive StoredValue
  | scalar (s : Scalar)
  | matrix (a : StoredMatrix)
deriving DecidableEq, Repr

structure StoredStep where
  value : StoredValue
  note : Option String
deriving DecidableEq, Repr

structure StoredSolution where
  operator : Operator
  inputs : List StoredValue
  answer : StoredValue
  steps : List StoredStep
deriving DecidableEq, Repr

def StoredSolution.record (operator : Operator) (inputs : List StoredValue) (answer : StoredValue)
    (steps : List StoredStep) : StoredSolution :=
  ⟨operator, inputs, answer, steps ++ [⟨answer, none⟩]⟩

/-! ## From matrices to storage -/

def RatMatrix.stored (m : RatMatrix) : StoredMatrix :=
  ⟨m.rows, m.cols, m.grid.entries, m.display⟩

def Value.stored : Value → StoredValue
  | scalar s => .scalar s
  | matrix m => .matrix m.stored

def Step.stored (step : Step) : StoredStep :=
  ⟨step.value.stored, step.note⟩

def Solution.stored (s : Solution) : StoredSolution :=
  ⟨s.operator, s.inputs.map Value.stored, s.answer.stored, s.steps.map Step.stored⟩

/-- The result of an operation, put into storage. -/
def storedResult : Except MethodFault Solution → Except StoredFault StoredSolution
  | .ok s => .ok s.stored
  | .error fault => .error (.undefined fault)

end WorkedAlgebra
