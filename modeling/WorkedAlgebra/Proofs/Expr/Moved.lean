import WorkedAlgebra.Proofs.Expr.Build

/-!
# Windows at other positions

* **`Expr.outcome_build_add`**: a window is read in the same way wherever it stands; only the
  position of a fault depends on it.
-/

namespace WorkedAlgebra

open Window

namespace ParseFault

/-- A fault so many positions further on. -/
def move (n : Nat) : ParseFault → ParseFault
  | expressionRequired => expressionRequired
  | closeWithoutOpen p => closeWithoutOpen (n + p)
  | unbalancedBrackets opens closes p => unbalancedBrackets opens closes (n + p)
  | unpairedBracket p => unpairedBracket (n + p)
  | missingOperand p op => missingOperand (n + p) op
  | missingOperands p op => missingOperands (n + p) op
  | adjacentValues p => adjacentValues (n + p)
  | adjacentOperands p => adjacentOperands (n + p)
  | emptyBrackets p => emptyBrackets (n + p)
  | unexpectedLeftOperand p op => unexpectedLeftOperand (n + p) op

variable (n : Nat) (f : ParseFault)

@[simp] theorem code_move : (f.move n).code = f.code := by
  cases f <;> rfl

@[simp] theorem message_move : (f.move n).message = f.message := by
  cases f <;> rfl

@[simp] theorem operator?_move : (f.move n).operator? = f.operator? := by
  cases f <;> rfl

@[simp] theorem position?_move : (f.move n).position? = f.position?.map (n + ·) := by
  cases f <;> rfl

end ParseFault

theorem mapError_bind {ε ε' α β : Type} (g : ε → ε') (x : Except ε α) (f : α → Except ε β) :
    (x >>= f).mapError g = x.mapError g >>= fun a => (f a).mapError g := by
  cases x <;> rfl

namespace Expr

theorem ofToken_add (n position : Nat) (t : Token) :
    ofToken (n + position) t = (ofToken position t).mapError (ParseFault.move n) := by
  cases t with
  | operator op =>
    rw [ofToken, ofToken]
    cases op.isUnary <;> rfl
  | _ => rfl

theorem apply_add (n position : Nat) (op : Operator) (first second : Option Expr) :
    apply op (n + position) first second =
      (apply op position first second).mapError (ParseFault.move n) := by
  rcases first with _ | a <;> rcases second with _ | b <;> simp only [apply] <;>
    cases op.isUnary <;> rfl

/-- **A window is read wherever it stands as it is read at any other position, with its fault
moved.** -/
theorem outcome_build_add (n start : Nat) (w : List Token) :
    (build (n + start) w).outcome = (build start w).outcome.mapError (ParseFault.move n) := by
  induction start, w using window_induction with
  | enclosed start inner hu ih =>
    rw [outcome_build_of_unwrap? hu, outcome_build_of_unwrap? hu, Nat.add_assoc, ih]
  | nil start =>
    rw [outcome_build_nil, outcome_build_nil]
    rfl
  | singleton start t =>
    rw [outcome_build_singleton, outcome_build_singleton, ofToken_add]
    cases ofToken start t <;> rfl
  | split start l op r hu hr hl ih₁ ih₂ =>
    rw [outcome_build_append_operator hu hr hl, outcome_build_append_operator hu hr hl]
    have hsplit : n + start + l.length = n + (start + l.length) := by omega
    have hright : n + start + l.length + 1 = n + (start + l.length + 1) := by omega
    rw [hright, hsplit, ih₁, ih₂, mapError_bind]
    congr 1
    funext first
    rw [mapError_bind]
    congr 1
    funext second
    rw [apply_add]
    cases apply op (start + l.length) first second <;> rfl
  | groups start w hu hr hl ih =>
    rw [outcome_build_groups hu hr hl, outcome_build_groups hu hr hl]
    have hfaults : ((groups w).findSome? fun g =>
          (build (n + start + g.1) (slice w g.1 g.2)).fault?) =
        ((groups w).findSome? fun g => (build (start + g.1) (slice w g.1 g.2)).fault?).map
          (ParseFault.move n) := by
      refine findSome?_eq_map fun g hg => ?_
      rw [Nat.add_assoc]
      exact Traced.fault?_eq_map (f := id) (by rw [Except.map_id]; exact ih g hg)
    rw [hfaults]
    cases (groups w).findSome? _ <;> rfl

end Expr
end WorkedAlgebra
