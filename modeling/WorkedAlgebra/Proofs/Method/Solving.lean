import Mathlib.Tactic.SplitIfs
import WorkedAlgebra.Method.Binding
import WorkedAlgebra.Proofs.Method.RowReduction

/-!
# What methods record

* **`Operator.solves`**, **`Method.apply_eq_ok`**, **`Method.apply_eq_error`**: what every method
  records, and what follows from its success and its failure on operands.
-/

namespace WorkedAlgebra

/-- A step shows a matrix, or a written text in the place of a number. -/
def Step.IsWritten (step : Step) : Prop :=
  step.value.kind = .matrix ∨ ∃ text, step.value.display = .custom text

/-- If there is a solution, it records an operator, its inputs and an answer of a given kind in the
mode that they ask for, and a step is written out. -/
def Solves (op : Operator) (inputs : List Value) (kind : ValueKind)
    (r : Except MethodFault Solution) : Prop :=
  ∀ s, r = .ok s → ∃ answer steps, s = .record op inputs answer steps ∧ answer.kind = kind ∧
    answer.display = .resolve (inputs.map Value.display) ∧ ∃ step ∈ s.steps, step.IsWritten

section

variable {op : Operator} {inputs : List Value} {kind : ValueKind} {answer : Value}

theorem solves_ok (hk : answer.kind = kind)
    (hd : answer.display = .resolve (inputs.map Value.display)) {steps : List Step} {step : Step}
    (hs : step ∈ steps) (hw : step.IsWritten) :
    Solves op inputs kind (.ok (.record op inputs answer steps)) := by
  rintro s ⟨⟩
  exact ⟨answer, steps, rfl, hk, hd, step, List.mem_append_left _ hs, hw⟩

theorem solves_ok_matrix (hk : answer.kind = .matrix)
    (hd : answer.display = .resolve (inputs.map Value.display)) (steps : List Step) :
    Solves op inputs .matrix (.ok (.record op inputs answer steps)) := by
  rintro s ⟨⟩
  exact ⟨answer, steps, rfl, hk, hd, .plain answer, by simp [Solution.record], .inl hk⟩

theorem solves_error (e : MethodFault) : Solves op inputs kind (.error e) := by
  intro s hs
  cases hs

end

/-! ## Display modes -/

namespace DisplayMode

theorem resolve_eq_decimal_iff {modes : List DisplayMode} :
    resolve modes = decimal ↔ decimal ∈ modes := by
  simp [resolve]

@[simp] theorem decimal_eq_resolve_iff {modes : List DisplayMode} :
    decimal = resolve modes ↔ decimal ∈ modes :=
  eq_comm.trans resolve_eq_decimal_iff

theorem resolve_congr {modes modes' : List DisplayMode}
    (h : decimal ∈ modes ↔ decimal ∈ modes') : resolve modes = resolve modes' := by
  simp only [resolve, h]

theorem resolve_resolve (modes : List DisplayMode) : resolve [resolve modes] = resolve modes :=
  resolve_congr (by simp)

theorem resolve_swap (a b : DisplayMode) : resolve [a, b] = resolve [b, a] :=
  resolve_congr (by simp [or_comm])

end DisplayMode

/-! ## Arithmetic -/

section Arithmetic

variable (a b s : Scalar) (m k : RatMatrix)

theorem ScalarArithmetic.solves_solution (op : Operator) (result : ℚ) :
    Solves op [.scalar a, .scalar b] .scalar (.ok (solution op a b result)) :=
  solves_ok rfl rfl List.mem_cons_self (.inr ⟨_, rfl⟩)

theorem ScalarArithmetic.solves_divide :
    Solves .scalarDivide [.scalar a, .scalar b] .scalar (divide a b) := by
  unfold divide
  split_ifs
  · exact solves_error _
  · exact solves_solution a b _ _

theorem MatrixArithmetic.solves_entrywise (op : Operator) (verb : String) (f : ℚ → ℚ → ℚ) :
    Solves op [.matrix m, .matrix k] .matrix (entrywise op verb f m k) := by
  unfold entrywise
  split_ifs
  · exact solves_ok_matrix rfl rfl _
  · exact solves_error _

theorem MatrixArithmetic.solves_multiply :
    Solves .matrixMultiply [.matrix m, .matrix k] .matrix (multiply m k) := by
  unfold multiply
  split_ifs
  · exact solves_ok_matrix rfl rfl _
  · exact solves_error _

theorem MatrixArithmetic.solves_scale_left :
    Solves .scalarMatrixMultiply [.scalar s, .matrix m] .matrix (scale .left s m) :=
  solves_ok_matrix rfl rfl _

theorem MatrixArithmetic.solves_scale_right :
    Solves .scalarMatrixMultiply [.matrix m, .scalar s] .matrix (scale .right s m) := by
  refine solves_ok_matrix rfl ?_ _
  exact DisplayMode.resolve_swap s.display m.display

theorem MatrixArithmetic.solves_transpose :
    Solves .transpose [.matrix m] .matrix (transpose m) :=
  solves_ok_matrix rfl rfl _

end Arithmetic

/-! ## Elimination -/

section Elimination

variable (m : RatMatrix)

theorem Elimination.solves_rowReduce :
    Solves .rowReduce [.matrix m] .matrix (rowReduce m).outcome := by
  unfold rowReduce
  rw [Traced.outcome_bind_of_ok (outcome_reduced _ _)]
  exact solves_ok_matrix rfl rfl _

theorem Elimination.solves_rank : Solves .rank [.matrix m] .scalar (rank m).outcome := by
  unfold rank
  rw [Traced.outcome_bind_of_ok (outcome_reduced _ _)]
  exact solves_ok rfl rfl (List.mem_append_right _ List.mem_cons_self) (.inl rfl)

theorem Elimination.display_columnsAt (display : DisplayMode) (columns : List (Fin m.cols)) :
    (columnsAt m display columns).display = display := by
  cases columns <;> rfl

theorem Elimination.solves_columnSpace :
    Solves .columnSpace [.matrix m] .matrix (columnSpace m).outcome := by
  unfold columnSpace
  rw [Traced.outcome_bind_of_ok (outcome_reduced _ _)]
  refine solves_ok_matrix rfl ?_ _
  exact display_columnsAt m _ _

theorem Elimination.solves_inverse :
    Solves .inverse [.matrix m] .matrix (inverse m).outcome := by
  unfold inverse
  split_ifs
  · rw [Traced.outcome_bind_of_ok (outcome_reduced _ _)]
    split_ifs
    · exact solves_error _
    · exact solves_ok_matrix rfl rfl _
  · exact solves_error _

theorem Elimination.solves_determinant :
    Solves .determinant [.matrix m] .scalar (determinant m).outcome := by
  unfold determinant
  split_ifs
  · rw [Traced.outcome_bind_of_ok (outcome_reduced _ _)]
    exact solves_ok rfl rfl (List.mem_append_right _ List.mem_cons_self) (.inr ⟨_, rfl⟩)
  · exact solves_error _

end Elimination

/-! ## Kinds of operands and answers -/

/-- The kinds of operands that a method takes. An operator with one operand has no first one. -/
inductive Method.Accepts : Method → Option ValueKind → ValueKind → Prop
  | scalars (f) : Accepts (.scalars f) (some .scalar) .scalar
  | matrices (f) : Accepts (.matrices f) (some .matrix) .matrix
  | scaleLeft (f) : Accepts (.scaling f) (some .scalar) .matrix
  | scaleRight (f) : Accepts (.scaling f) (some .matrix) .scalar
  | matrix (f) : Accepts (.matrix f) none .matrix

/-- The kind of the answer to an operator. -/
def Operator.answerKind : Operator → ValueKind
  | scalarPlus | scalarMinus | scalarMultiply | scalarDivide | scalarPower => .scalar
  | determinant | rank => .scalar
  | _ => .matrix

/-- **A method works operands exactly if it takes their kinds.** -/
theorem Method.solve?_isSome_iff (method : Method) (first : Option Value) (second : Value) :
    (method.solve? first second).isSome ↔ method.Accepts (first.map Value.kind) second.kind := by
  constructor
  · intro h
    match method, first, second with
    | .scalars _, some (.scalar _), .scalar _ => exact .scalars _
    | .matrices _, some (.matrix _), .matrix _ => exact .matrices _
    | .scaling _, some (.scalar _), .matrix _ => exact .scaleLeft _
    | .scaling _, some (.matrix _), .scalar _ => exact .scaleRight _
    | .matrix _, none, .matrix _ => exact .matrix _
  · intro h
    match method, first, second, h with
    | .scalars _, some (.scalar _), .scalar _, _ => rfl
    | .matrices _, some (.matrix _), .matrix _, _ => rfl
    | .scaling _, some (.scalar _), .matrix _, _ => rfl
    | .scaling _, some (.matrix _), .scalar _, _ => rfl
    | .matrix _, none, .matrix _, _ => rfl

/-! ## The operators -/

/-- `P` holds of all operands that a method takes and of what the method comes to on them. -/
def Method.Ensures (P : List Value → Except MethodFault Solution → Prop) : Method → Prop
  | scalars f => ∀ a b, P [.scalar a, .scalar b] (f a b)
  | matrices f => ∀ a b, P [.matrix a, .matrix b] (f a b)
  | scaling f => ∀ s m,
    P [.scalar s, .matrix m] (f .left s m) ∧ P [.matrix m, .scalar s] (f .right s m)
  | matrix f => ∀ m, P [.matrix m] (f m).outcome

theorem Method.Ensures.of_solve? {P : List Value → Except MethodFault Solution → Prop}
    {method : Method} {first : Option Value} {second : Value} {t : Traced MethodFault Solution}
    (h : method.Ensures P) (ht : method.solve? first second = some t) :
    P (first.toList ++ [second]) t.outcome := by
  match method, first, second, h, ht with
  | .scalars _, some (.scalar a), .scalar b, h, rfl => exact h a b
  | .matrices _, some (.matrix a), .matrix b, h, rfl => exact h a b
  | .scaling _, some (.scalar s), .matrix m, h, rfl => exact (h s m).1
  | .scaling _, some (.matrix m), .scalar s, h, rfl => exact (h s m).2
  | .matrix _, none, .matrix m, h, rfl => exact h m

/-- **Every method records what its operator promises**: the operator, the operands, an answer of
its kind in the mode that the operands ask for, and a written step. -/
theorem Operator.solves {op : Operator} {method : Method} (bound : op.method? = some method) :
    method.Ensures fun inputs r => Solves op inputs op.answerKind r := by
  cases op with
  | scalarPower | matrixPower | nullSpace => cases bound
  | scalarPlus | scalarMinus | scalarMultiply =>
    cases bound
    exact fun a b => ScalarArithmetic.solves_solution a b _ _
  | scalarDivide =>
    cases bound
    exact ScalarArithmetic.solves_divide
  | scalarMatrixMultiply =>
    cases bound
    exact fun s m =>
      ⟨MatrixArithmetic.solves_scale_left s m, MatrixArithmetic.solves_scale_right s m⟩
  | matrixPlus | matrixMinus =>
    cases bound
    exact fun m k => MatrixArithmetic.solves_entrywise m k _ _ _
  | matrixMultiply =>
    cases bound
    exact MatrixArithmetic.solves_multiply
  | determinant =>
    cases bound
    exact Elimination.solves_determinant
  | rowReduce =>
    cases bound
    exact Elimination.solves_rowReduce
  | rank =>
    cases bound
    exact Elimination.solves_rank
  | transpose =>
    cases bound
    exact MatrixArithmetic.solves_transpose
  | inverse =>
    cases bound
    exact Elimination.solves_inverse
  | columnSpace =>
    cases bound
    exact Elimination.solves_columnSpace

/-! ## A method on operands -/

section Apply

variable {op : Operator} {method : Method} {first : Option Value} {second : Value}

theorem Method.apply_eq_ok_iff {s : Solution} :
    (method.apply op first second).outcome = .ok s ↔
      ∃ t, method.solve? first second = some t ∧ t.outcome = .ok s := by
  unfold Method.apply
  cases method.solve? first second with
  | none => simp
  | some t => cases ht : t.outcome <;> simp [ht, Except.mapError]

theorem Method.solves_of_apply (bound : op.method? = some method) {s : Solution}
    (h : (method.apply op first second).outcome = .ok s) :
    Solves op (first.toList ++ [second]) op.answerKind (.ok s) := by
  obtain ⟨t, ht, hs⟩ := Method.apply_eq_ok_iff.mp h
  rw [← hs]
  exact (Operator.solves bound).of_solve? ht

/-- **What follows from a method's success.** -/
theorem Method.apply_eq_ok (bound : op.method? = some method) {s : Solution}
    (h : (method.apply op first second).outcome = .ok s) :
    method.Accepts (first.map Value.kind) second.kind ∧
      ∃ answer steps, s = .record op (first.toList ++ [second]) answer steps ∧
        answer.kind = op.answerKind := by
  obtain ⟨t, ht, -⟩ := Method.apply_eq_ok_iff.mp h
  obtain ⟨answer, steps, hs, hk, -⟩ := Method.solves_of_apply bound h s rfl
  exact ⟨(Method.solve?_isSome_iff _ _ _).mp (by rw [ht]; rfl), answer, steps, hs, hk⟩

/-- **What follows from a method's failure**: the operands are of the wrong kinds, or the operation
is undefined on them. -/
theorem Method.apply_eq_error {e : EvalFault}
    (h : (method.apply op first second).outcome = .error e) :
    ¬ method.Accepts (first.map Value.kind) second.kind ∨ ∃ fault, e = .undefined op fault := by
  rw [← Method.solve?_isSome_iff]
  unfold Method.apply at h
  cases ht : method.solve? first second with
  | none => exact .inl (by simp)
  | some t =>
    rw [ht] at h
    right
    revert h
    cases hr : t.outcome with
    | error fault =>
      rintro h
      rw [Traced.outcome_mapFault, hr] at h
      exact ⟨fault, (Except.error.inj h).symm⟩
    | ok s => simp [hr, Except.mapError]

end Apply

end WorkedAlgebra
