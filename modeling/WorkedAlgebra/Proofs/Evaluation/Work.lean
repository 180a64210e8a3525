import WorkedAlgebra.Evaluation
import WorkedAlgebra.Proofs.Method.Solving

/-!
# One operation of an expression

* **`Expr.work_unary_eq_ok_iff`**, **`Expr.work_unary_eq_error_iff`** and those for two operands:
  when the work on an operator succeeds, and when it fails.
-/

namespace WorkedAlgebra

/-- The operators of an expression in the order of working. -/
def Expr.operators : Expr → List Operator
  | value _ => []
  | unary op operand => operand.operators ++ [op]
  | binary op first second => first.operators ++ second.operators ++ [op]

/-- What an expression comes to, from its work tree. -/
def WorkTree.value? (t : WorkTree) (e : Expr) : Option Value :=
  match t with
  | leaf => e.value?
  | node solution _ _ => some solution.answer

theorem Operator.method_eq_ok_iff {op : Operator} {method : Method} :
    op.method = .ok method ↔ op.method? = some method := by
  unfold Operator.method
  cases op.method? <;> simp

theorem Operator.method_eq_error_iff {op : Operator} {e : EvalFault} :
    op.method = .error e ↔ op.method? = none ∧ e = .unsupported op := by
  unfold Operator.method
  cases op.method? <;> simp [eq_comm]

theorem Method.outcome_perform (method : Method) (op : Operator) (first : Option Value)
    (second : Value) :
    (method.perform op first second).outcome = (method.apply op first second).outcome := by
  unfold Method.perform
  rw [Traced.outcome_bind]
  cases (method.apply op first second).outcome <;> rfl

namespace Expr

variable {op : Operator} {operand left right : Expr} {t : WorkTree} {v : Value} {e : EvalFault}

theorem work_value_eq_ok_iff {u : Value} :
    (value u).work.outcome = .ok (t, v) ↔ t = .leaf ∧ v = u := by
  unfold work
  rw [Traced.outcome_pure, Except.ok.injEq, Prod.mk.injEq, eq_comm, eq_comm (a := u)]

theorem outcome_work_unary (op : Operator) (operand : Expr) :
    (unary op operand).work.outcome = (do
      let method ← op.method
      let p ← operand.work.outcome
      let solution ← (method.apply op none p.2).outcome
      pure (.node solution .leaf p.1, solution.answer)) := by
  simp only [work, Traced.outcome_bind, Traced.outcome_ofExcept, Method.outcome_perform]
  rfl

theorem outcome_work_binary (op : Operator) (left right : Expr) :
    (binary op left right).work.outcome = (do
      let method ← op.method
      let p ← left.work.outcome
      let q ← right.work.outcome
      let solution ← (method.apply op (some p.2) q.2).outcome
      pure (.node solution p.1 q.1, solution.answer)) := by
  simp only [work, Traced.outcome_bind, Traced.outcome_ofExcept, Method.outcome_perform]
  rfl

/-- **When the work on an operator with one operand succeeds.** -/
theorem work_unary_eq_ok_iff :
    (unary op operand).work.outcome = .ok (t, v) ↔
      ∃ method second b s, op.method? = some method ∧ operand.work.outcome = .ok (second, b) ∧
        (method.apply op none b).outcome = .ok s ∧ t = .node s .leaf second ∧ v = s.answer := by
  rw [outcome_work_unary]
  simp only [Traced.bind_eq_ok_iff, Operator.method_eq_ok_iff, pure, Except.pure, Except.ok.injEq,
    Prod.mk.injEq, Prod.exists]
  constructor
  · rintro ⟨method, hm, second, b, hb, s, hs, rfl, rfl⟩
    exact ⟨method, second, b, s, hm, hb, hs, rfl, rfl⟩
  · rintro ⟨method, second, b, s, hm, hb, hs, rfl, rfl⟩
    exact ⟨method, hm, second, b, hb, s, hs, rfl, rfl⟩

/-- **When the work on an operator with two operands succeeds.** -/
theorem work_binary_eq_ok_iff :
    (binary op left right).work.outcome = .ok (t, v) ↔
      ∃ method first a second b s, op.method? = some method ∧
        left.work.outcome = .ok (first, a) ∧ right.work.outcome = .ok (second, b) ∧
        (method.apply op (some a) b).outcome = .ok s ∧ t = .node s first second ∧
        v = s.answer := by
  rw [outcome_work_binary]
  simp only [Traced.bind_eq_ok_iff, Operator.method_eq_ok_iff, pure, Except.pure, Except.ok.injEq,
    Prod.mk.injEq, Prod.exists]
  constructor
  · rintro ⟨method, hm, first, a, ha, second, b, hb, s, hs, rfl, rfl⟩
    exact ⟨method, first, a, second, b, s, hm, ha, hb, hs, rfl, rfl⟩
  · rintro ⟨method, first, a, second, b, s, hm, ha, hb, hs, rfl, rfl⟩
    exact ⟨method, hm, first, a, ha, second, b, hb, s, hs, rfl, rfl⟩

/-- **When the work on an operator with one operand fails**: the operator has no method, the operand
fails, or the method does. -/
theorem work_unary_eq_error_iff :
    (unary op operand).work.outcome = .error e ↔
      (op.method? = none ∧ e = .unsupported op) ∨
        ∃ method, op.method? = some method ∧ (operand.work.outcome = .error e ∨
          ∃ second b, operand.work.outcome = .ok (second, b) ∧
            (method.apply op none b).outcome = .error e) := by
  rw [outcome_work_unary]
  simp [Traced.bind_eq_error_iff, Operator.method_eq_ok_iff, Operator.method_eq_error_iff, pure,
    Except.pure]

theorem work_binary_eq_error_iff :
    (binary op left right).work.outcome = .error e ↔
      (op.method? = none ∧ e = .unsupported op) ∨
        ∃ method, op.method? = some method ∧ (left.work.outcome = .error e ∨
          ∃ first a, left.work.outcome = .ok (first, a) ∧ (right.work.outcome = .error e ∨
            ∃ second b, right.work.outcome = .ok (second, b) ∧
              (method.apply op (some a) b).outcome = .error e)) := by
  rw [outcome_work_binary]
  simp [Traced.bind_eq_error_iff, Operator.method_eq_ok_iff, Operator.method_eq_error_iff, pure,
    Except.pure]

theorem value?_of_work {x : Expr} (h : x.work.outcome = .ok (t, v)) : t.value? x = some v := by
  cases x with
  | value u =>
    obtain ⟨rfl, rfl⟩ := work_value_eq_ok_iff.mp h
    rfl
  | unary op operand =>
    obtain ⟨_, _, _, s, _, _, _, rfl, rfl⟩ := work_unary_eq_ok_iff.mp h
    rfl
  | binary op left right =>
    obtain ⟨_, _, _, _, _, s, _, _, _, _, rfl, rfl⟩ := work_binary_eq_ok_iff.mp h
    rfl

theorem evaluate_eq_ok_iff {x : Expr} :
    x.evaluate = .ok t ↔ ∃ v, x.work.outcome = .ok (t, v) := by
  unfold evaluate evaluateTraced
  rw [Traced.outcome_map, Traced.map_eq_ok_iff]
  simp

theorem evaluate_eq_error_iff {x : Expr} :
    x.evaluate = .error e ↔ x.work.outcome = .error e := by
  unfold evaluate evaluateTraced
  rw [Traced.outcome_map, Traced.map_eq_error_iff]

end Expr
end WorkedAlgebra
