import WorkedAlgebra.Proofs.Method.Solving

/-!
# Methods do not look at display modes

* **`Operator.oblivious`**, **`Method.Oblivious.apply_congr`**: every method solves operands alike
  that are the same without their modes.
-/

namespace WorkedAlgebra

/-! ## Without modes -/

def Scalar.bare (s : Scalar) : Scalar :=
  s.withDisplay .fraction

def RatMatrix.bare (m : RatMatrix) : RatMatrix :=
  m.withDisplay .fraction

/-- A value without its mode: two values of the same numbers become equal. -/
def Value.bare : Value → Value
  | scalar s => scalar s.bare
  | matrix m => matrix m.bare

theorem Value.kind_bare (v : Value) : v.bare.kind = v.kind := by
  cases v <;> rfl

/-- A step without its mode and its note, which may show numbers in that mode. -/
def Step.bare (step : Step) : Step :=
  .plain step.value.bare

def Solution.bare (s : Solution) : Solution :=
  ⟨s.operator, s.inputs.map Value.bare, s.answer.bare, s.steps.map Step.bare⟩

/-- Two computations come to solutions that are the same without modes, or to the same fault. -/
def Alike {ε : Type} (x y : Except ε Solution) : Prop :=
  x.map Solution.bare = y.map Solution.bare

theorem Step.map_bare_append {xs xs' ys ys' : List Step} (hx : xs.map bare = xs'.map bare)
    (hy : ys.map bare = ys'.map bare) : (xs ++ ys).map bare = (xs' ++ ys').map bare := by
  rw [List.map_append, List.map_append, hx, hy]

namespace Alike

variable {ε : Type} {op : Operator} {inputs inputs' : List Value} {answer answer' : Value}
  {steps steps' : List Step}

theorem refl (x : Except ε Solution) : Alike x x := rfl

theorem ok (hi : inputs.map Value.bare = inputs'.map Value.bare) (ha : answer.bare = answer'.bare)
    (hs : steps.map Step.bare = steps'.map Step.bare) :
    Alike (.ok (.record op inputs answer steps) : Except ε Solution)
      (.ok (.record op inputs' answer' steps')) := by
  simp only [Alike, Except.map, Solution.bare, Solution.record, List.map_append,
    List.map_singleton, hi, ha, hs, Step.bare, Step.plain]

theorem ok_written {step step' : Step} (hi : inputs.map Value.bare = inputs'.map Value.bare)
    (hs : step.value.bare = answer.bare) (hs' : step'.value.bare = answer'.bare)
    (ha : answer.bare = answer'.bare) :
    Alike (.ok (.record op inputs answer [step]) : Except ε Solution)
      (.ok (.record op inputs' answer' [step'])) := by
  refine ok hi ha ?_
  rw [List.map_singleton, List.map_singleton, Step.bare, Step.bare, hs, hs', ha]

theorem ok_closed {q q' : ℚ} {d d' : DisplayMode} {note note' : String}
    (hi : inputs.map Value.bare = inputs'.map Value.bare)
    (hs : steps.map Step.bare = steps'.map Step.bare) (hq : q = q') :
    Alike (.ok (.record op inputs (.scalar ⟨q, d⟩)
        (steps ++ [.noted (.scalar ⟨q, .custom note⟩) note])) : Except ε Solution)
      (.ok (.record op inputs' (.scalar ⟨q', d'⟩)
        (steps' ++ [.noted (.scalar ⟨q', .custom note'⟩) note']))) := by
  subst hq
  exact ok hi rfl (Step.map_bare_append hs rfl)

end Alike

/-! ## Arithmetic -/

section Arithmetic

variable (a b s : Scalar) (m k : RatMatrix)

theorem ScalarArithmetic.alike_solution (op : Operator) (result : ℚ) :
    Alike (.ok (solution op a.bare b.bare result) : Except MethodFault Solution)
      (.ok (solution op a b result)) :=
  .ok_written rfl rfl rfl rfl

theorem ScalarArithmetic.alike_divide : Alike (divide a.bare b.bare) (divide a b) := by
  -- the check before a method looks at numbers, so it is the same on both sides
  change Alike (if b.value = 0 then _ else _) _
  unfold divide
  split_ifs
  · exact .refl _
  · exact alike_solution a b _ _

theorem MatrixArithmetic.alike_entrywise (op : Operator) (verb : String) (f : ℚ → ℚ → ℚ) :
    Alike (entrywise op verb f m.bare k.bare) (entrywise op verb f m k) := by
  change Alike (if _h : m.rows = k.rows ∧ m.cols = k.cols then _ else _) _
  unfold entrywise
  split_ifs
  · exact .ok_written rfl rfl rfl rfl
  · exact .refl _

theorem MatrixArithmetic.alike_multiply : Alike (multiply m.bare k.bare) (multiply m k) := by
  change Alike (if _h : m.cols = k.rows then _ else _) _
  unfold multiply
  split_ifs
  · exact .ok_written rfl rfl rfl rfl
  · exact .refl _

theorem MatrixArithmetic.alike_scale (side : Side) :
    Alike (scale side s.bare m.bare) (scale side s m) := by
  cases side with
  | left => exact .ok_written rfl rfl rfl rfl
  | right => exact .ok_written rfl rfl rfl rfl

theorem MatrixArithmetic.alike_transpose : Alike (transpose m.bare) (transpose m) :=
  .ok rfl rfl rfl

end Arithmetic

/-! ## Elimination -/

section Elimination

variable (m : RatMatrix)

theorem Elimination.map_bare_shown {r c : ℕ} (g : Grid r c) (ops : List (RowOp r))
    (d e : DisplayMode) (hr : 0 < r) (hc : 0 < c) :
    (shown g ops d hr hc).map Step.bare = (shown g ops e hr hc).map Step.bare := by
  simp only [shown, List.map_map]
  rfl

theorem Elimination.alike_rowReduce :
    Alike (rowReduce m.bare).outcome (rowReduce m).outcome := by
  unfold rowReduce
  rw [Traced.outcome_bind_of_ok (outcome_reduced _ _),
    Traced.outcome_bind_of_ok (outcome_reduced _ _)]
  exact .ok rfl rfl (map_bare_shown _ _ _ _ _ _)

theorem Elimination.alike_rank : Alike (rank m.bare).outcome (rank m).outcome := by
  unfold rank
  rw [Traced.outcome_bind_of_ok (outcome_reduced _ _),
    Traced.outcome_bind_of_ok (outcome_reduced _ _)]
  exact .ok rfl rfl (Step.map_bare_append (map_bare_shown _ _ _ _ _ _) rfl)

theorem Elimination.bare_columnsAt (d e : DisplayMode) (columns : List (Fin m.cols)) :
    (columnsAt m.bare d columns).bare = (columnsAt m e columns).bare := by
  cases columns <;> rfl

theorem Elimination.alike_columnSpace :
    Alike (columnSpace m.bare).outcome (columnSpace m).outcome := by
  unfold columnSpace
  rw [Traced.outcome_bind_of_ok (outcome_reduced _ _),
    Traced.outcome_bind_of_ok (outcome_reduced _ _)]
  refine .ok rfl ?_ (Step.map_bare_append (map_bare_shown _ _ _ _ _ _) rfl)
  exact congrArg Value.matrix (bare_columnsAt m _ _ _)

theorem Elimination.alike_inverse : Alike (inverse m.bare).outcome (inverse m).outcome := by
  change Alike (if m.isSquare then _ else _ : Traced MethodFault Solution).outcome _
  unfold inverse
  split_ifs
  · rw [Traced.outcome_bind_of_ok (outcome_reduced _ _),
      Traced.outcome_bind_of_ok (outcome_reduced _ _)]
    change Alike (if (reduce ((List.finRange m.cols).map (Fin.castAdd m.rows))
      (augmented m)).pivots.length < m.rows then _ else _ : Traced MethodFault Solution).outcome _
    split_ifs
    · exact .refl _
    · exact .ok rfl rfl (congrArg (List.cons _) (map_bare_shown _ _ _ _ _ _))
  · exact .refl _

theorem Elimination.alike_determinant :
    Alike (determinant m.bare).outcome (determinant m).outcome := by
  change Alike (if m.isSquare then _ else _ : Traced MethodFault Solution).outcome _
  unfold determinant
  split_ifs
  · rw [Traced.outcome_bind_of_ok (outcome_reduced _ _),
      Traced.outcome_bind_of_ok (outcome_reduced _ _)]
    refine .ok_closed rfl (map_bare_shown _ _ _ _ _ _) ?_
    -- the note stands beside the number, which does not depend on it
    simp only [apply_ite Prod.fst]
    rfl
  · exact .refl _

end Elimination

/-! ## The operators -/

/-- A method is **oblivious** to modes: it solves operands alike with and without their modes. -/
def Method.Oblivious : Method → Prop
  | scalars f => ∀ a b, Alike (f a.bare b.bare) (f a b)
  | matrices f => ∀ a b, Alike (f a.bare b.bare) (f a b)
  | scaling f => ∀ side s m, Alike (f side s.bare m.bare) (f side s m)
  | matrix f => ∀ m, Alike (f m.bare).outcome (f m).outcome

/-- **Every method is oblivious to modes.** -/
theorem Operator.oblivious {op : Operator} {method : Method} (bound : op.method? = some method) :
    method.Oblivious := by
  cases op with
  | scalarPower | matrixPower | nullSpace => cases bound
  | scalarPlus | scalarMinus | scalarMultiply =>
    cases bound
    exact fun a b => ScalarArithmetic.alike_solution a b _ _
  | scalarDivide =>
    cases bound
    exact ScalarArithmetic.alike_divide
  | scalarMatrixMultiply =>
    cases bound
    exact fun side s m => MatrixArithmetic.alike_scale s m side
  | matrixPlus | matrixMinus =>
    cases bound
    exact fun m k => MatrixArithmetic.alike_entrywise m k _ _ _
  | matrixMultiply =>
    cases bound
    exact MatrixArithmetic.alike_multiply
  | determinant =>
    cases bound
    exact Elimination.alike_determinant
  | rowReduce =>
    cases bound
    exact Elimination.alike_rowReduce
  | rank =>
    cases bound
    exact Elimination.alike_rank
  | transpose =>
    cases bound
    exact MatrixArithmetic.alike_transpose
  | inverse =>
    cases bound
    exact Elimination.alike_inverse
  | columnSpace =>
    cases bound
    exact Elimination.alike_columnSpace

/-! ## A method on operands -/

namespace Method

variable {method : Method}

theorem describe_bare (first : Option Value) (second : Value) :
    describe (first.map Value.bare) second.bare = describe first second := by
  cases first <;> simp [describe, Value.kind_bare]

theorem Oblivious.solve? (h : method.Oblivious) (first : Option Value) (second : Value) :
    (method.solve? (first.map Value.bare) second.bare).map (·.outcome.map Solution.bare) =
      (method.solve? first second).map (·.outcome.map Solution.bare) := by
  cases method with
  | scalars f | matrices f =>
    rcases first with _ | a | a <;> rcases second with b | b <;>
      first | rfl | exact congrArg some (h a b)
  | scaling f =>
    rcases first with _ | a | a <;> rcases second with b | b <;>
      first | rfl | exact congrArg some (h _ a b) | exact congrArg some (h _ b a)
  | matrix f =>
    rcases first with _ | a | a <;> rcases second with b | b <;>
      first | rfl | exact congrArg some (h b)

theorem alike_mapError {ε ε' : Type} (f : ε → ε') {x y : Except ε Solution} (h : Alike x y) :
    Alike (x.mapError f) (y.mapError f) := by
  have hmap (z : Except ε Solution) :
      (z.mapError f).map Solution.bare = (z.map Solution.bare).mapError f := by
    cases z <;> rfl
  rw [Alike, hmap, hmap, h]

theorem Oblivious.apply (h : method.Oblivious) (op : Operator) (first : Option Value)
    (second : Value) :
    Alike (method.apply op (first.map Value.bare) second.bare).outcome
      (method.apply op first second).outcome := by
  have hsolve := h.solve? first second
  unfold Method.apply
  cases hb : method.solve? (first.map Value.bare) second.bare with
  | none =>
    cases hs : method.solve? first second with
    | none =>
      rw [describe_bare]
      exact .refl _
    | some t => simp [hb, hs] at hsolve
  | some u =>
    cases hs : method.solve? first second with
    | none => simp [hb, hs] at hsolve
    | some t =>
      rw [hb, hs] at hsolve
      exact alike_mapError _ (Option.some.inj hsolve)

/-- **Operands that are the same without their modes are solved alike**, faults included. -/
theorem Oblivious.apply_congr (h : method.Oblivious) (op : Operator)
    {first first' : Option Value} {second second' : Value}
    (h₁ : first.map Value.bare = first'.map Value.bare) (h₂ : second.bare = second'.bare) :
    Alike (method.apply op first second).outcome (method.apply op first' second').outcome := by
  have hfirst := h.apply op first second
  rw [h₁, h₂] at hfirst
  exact hfirst.symm.trans (h.apply op first' second')

end Method
end WorkedAlgebra
