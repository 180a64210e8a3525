import WorkedAlgebra.Proofs.Method.Change
import WorkedAlgebra.Proofs.Method.Note

/-!
# Derivations

The snapshots of an elimination, each with its note, are a derivation that can be retraced
(**`Reduction.derivation_reduce`**, **`Derivation.retrace_eq`**).
-/

namespace WorkedAlgebra

variable {r c : ℕ}

/-- Snapshots with notes. **Each comes from the one before by the operation that its note
spells**. -/
inductive Derivation : Grid r c → List (Grid r c × String) → Grid r c → Prop
  | done (g : Grid r c) : Derivation g [] g
  | step {g h : Grid r c} {op : RowOp r} {note : String} {rest : List (Grid r c × String)} :
    RowOp.Spells note op → op.apply g ≠ g → Derivation (op.apply g) rest h →
    Derivation g ((op.apply g, note) :: rest) h

/-- The grids that a list of notes leads to, one after another. -/
def retrace (g : Grid r c) : List String → Option (List (Grid r c))
  | [] => some []
  | note :: notes => do
    let op ← RowOp.ofNote? r note
    let rest ← retrace (op.apply g) notes
    pure (op.apply g :: rest)

/-- **The notes of a derivation alone lead to its snapshots.** -/
theorem Derivation.retrace_eq {g h : Grid r c} {snapshots : List (Grid r c × String)}
    (d : Derivation g snapshots h) :
    retrace g (snapshots.map Prod.snd) = some (snapshots.map Prod.fst) := by
  induction d with
  | done g => rfl
  | step spelled _ _ ih => simp [retrace, spelled.ofNote?_eq, ih]

example : retrace (.ofFn ![![0, 2], ![1, 3]]) ["R1 <-> R2", "R2 = (1/2)R2"] =
    some [.ofFn ![![1, 3], ![0, 2]], .ofFn ![![1, 3], ![0, 1]]] := by
  decide +kernel

/-- The grid after each operation of a list, with the note of the operation. -/
def RowOp.annotate (g : Grid r c) (ops : List (RowOp r)) : List (Grid r c × String) :=
  (RowOp.replay g ops).map fun p => (p.2, p.1.note)

theorem RowOp.derivation_annotate {ops : List (RowOp r)} (h : ∀ op ∈ ops, op.IsElementary)
    (g : Grid r c) (changes : RowOp.Changes g ops) :
    Derivation g (RowOp.annotate g ops) (RowOp.applyAll ops g) := by
  induction ops generalizing g with
  | nil => exact .done g
  | cons op ops ih =>
    have hop : op.IsElementary := h op List.mem_cons_self
    exact .step hop.spells changes.1
      (ih (fun op' hop' => h op' (List.mem_cons_of_mem _ hop')) _ changes.2)

theorem Reduction.derivation_reduce (columns : List (Fin c)) (g : Grid r c) :
    Derivation g (RowOp.annotate g (reduce columns g).ops) (reduce columns g).grid := by
  have ht := tallied_reduce columns g
  rw [ht.grid_eq]
  exact RowOp.derivation_annotate ht.elementary g (changes_reduce columns g)

end WorkedAlgebra
