import WorkedAlgebra.Proofs.Evaluation.Work

/-!
# Work trees mirror expressions

* **`Expr.mirrors_of_work`**, **`Expr.evaluate_mirrors`**: the work tree of an expression mirrors
  it.
-/

namespace WorkedAlgebra

namespace WorkTree

/-- A work tree **mirrors** an expression: for each operator it has the solution that the operator's
method finds on what the operands come to. -/
inductive Mirrors : WorkTree → Expr → Prop
  | value (v : Value) : Mirrors .leaf (.value v)
  | unary {op : Operator} {method : Method} {operand : Expr} {second : WorkTree} {b : Value}
      {s : Solution} (bound : op.method? = some method) (child : Mirrors second operand)
      (unworked : second = .leaf ↔ ∃ v, operand = .value v)
      (comes : second.value? operand = some b)
      (solved : (method.apply op none b).outcome = .ok s)
      (operator : s.operator = op) (inputs : s.inputs = [b]) :
      Mirrors (.node s .leaf second) (.unary op operand)
  | binary {op : Operator} {method : Method} {left right : Expr} {first second : WorkTree}
      {a b : Value} {s : Solution} (bound : op.method? = some method)
      (child₁ : Mirrors first left) (worked₁ : first = .leaf ↔ ∃ v, left = .value v)
      (comes₁ : first.value? left = some a)
      (child₂ : Mirrors second right) (worked₂ : second = .leaf ↔ ∃ v, right = .value v)
      (comes₂ : second.value? right = some b)
      (solved : (method.apply op (some a) b).outcome = .ok s)
      (operator : s.operator = op) (inputs : s.inputs = [a, b]) :
      Mirrors (.node s first second) (.binary op left right)

/-! ## Traversals -/

theorem trace_eq_flatMap (t : WorkTree) : t.trace = t.solutions.flatMap Solution.steps := by
  induction t with
  | leaf => rfl
  | node s first second ih₁ ih₂ =>
    simp only [trace, solutions, List.flatMap_append, List.flatMap_singleton, ih₁, ih₂]

theorem length_solutions (t : WorkTree) : t.solutions.length = t.size := by
  induction t with
  | leaf => rfl
  | node s first second ih₁ ih₂ =>
    simp only [solutions, size, List.length_append, List.length_singleton, ih₁, ih₂]

namespace Mirrors

variable {t : WorkTree} {e : Expr}

theorem eq_leaf_iff (h : t.Mirrors e) : t = .leaf ↔ ∃ v, e = .value v := by
  cases h with
  | value v => simp
  | unary => simp
  | binary => simp

theorem operators (h : t.Mirrors e) : t.solutions.map Solution.operator = e.operators := by
  induction h with
  | value v => rfl
  | unary _ _ _ _ _ operator _ ih =>
    simp only [solutions, Expr.operators, List.map_append, List.nil_append,
      List.map_singleton, ih, operator]
  | binary _ _ _ _ _ _ _ _ operator _ ih₁ ih₂ =>
    simp only [solutions, Expr.operators, List.map_append, List.map_singleton, ih₁, ih₂, operator]

theorem size_eq (h : t.Mirrors e) : t.size = e.size := by
  induction h with
  | value v => rfl
  | unary _ _ _ _ _ _ _ ih => simp only [size, Expr.size, ih, Nat.zero_add]
  | binary _ _ _ _ _ _ _ _ _ _ ih₁ ih₂ => simp only [size, Expr.size, ih₁, ih₂]

theorem forall_solutions {P : Solution → Prop}
    (hP : ∀ {op : Operator} {method : Method} {first : Option Value} {second : Value}
      {s : Solution}, op.method? = some method →
        (method.apply op first second).outcome = .ok s → P s)
    (h : t.Mirrors e) : ∀ s ∈ t.solutions, P s := by
  induction h with
  | value v =>
    intro s hs
    cases hs
  | unary bound _ _ _ solved _ _ ih =>
    intro s hs
    simp only [solutions, List.nil_append, List.mem_append, List.mem_singleton] at hs
    rcases hs with hs | rfl
    · exact ih s hs
    · exact hP bound solved
  | binary bound _ _ _ _ _ _ solved _ _ ih₁ ih₂ =>
    intro s hs
    simp only [solutions, List.mem_append, List.mem_singleton] at hs
    rcases hs with (hs | hs) | rfl
    · exact ih₁ s hs
    · exact ih₂ s hs
    · exact hP bound solved

theorem restates (h : t.Mirrors e) :
    ∀ s ∈ t.solutions, s.steps.getLast? = some (.plain s.answer) := by
  refine h.forall_solutions fun bound solved => ?_
  obtain ⟨-, answer, steps, rfl, -⟩ := Method.apply_eq_ok bound solved
  exact List.getLast?_concat

theorem isWritten (h : t.Mirrors e) : ∀ s ∈ t.solutions, ∃ step ∈ s.steps, step.IsWritten := by
  refine h.forall_solutions fun bound solved => ?_
  obtain ⟨answer, steps, -, -, -, hw⟩ := Method.solves_of_apply bound solved _ rfl
  exact hw

end Mirrors
end WorkTree

namespace Expr

theorem mirrors_of_work {e : Expr} {t : WorkTree} {v : Value} (h : e.work.outcome = .ok (t, v)) :
    t.Mirrors e := by
  induction e generalizing t v with
  | value u =>
    obtain ⟨rfl, rfl⟩ := work_value_eq_ok_iff.mp h
    exact .value v
  | unary op operand ih =>
    obtain ⟨method, second, b, s, bound, hb, hs, rfl, rfl⟩ := work_unary_eq_ok_iff.mp h
    obtain ⟨-, answer, steps, rfl, -⟩ := Method.apply_eq_ok bound hs
    have child := ih hb
    exact .unary bound child child.eq_leaf_iff (value?_of_work hb) hs rfl rfl
  | binary op left right ih₁ ih₂ =>
    obtain ⟨method, first, a, second, b, s, bound, ha, hb, hs, rfl, rfl⟩ :=
      work_binary_eq_ok_iff.mp h
    obtain ⟨-, answer, steps, rfl, -⟩ := Method.apply_eq_ok bound hs
    have child₁ := ih₁ ha
    have child₂ := ih₂ hb
    exact .binary bound child₁ child₁.eq_leaf_iff (value?_of_work ha) child₂ child₂.eq_leaf_iff
      (value?_of_work hb) hs rfl rfl

/-- **The work tree of an expression mirrors it**, its solutions stand in the order of working, and
every one ends with its answer. Nothing is worked exactly for a value. -/
theorem evaluate_mirrors (e : Expr) :
    (e.evaluate = .ok .leaf ↔ ∃ v, e = .value v) ∧
      ∀ t, e.evaluate = .ok t → t.Mirrors e ∧
        t.solutions.map Solution.operator = e.operators ∧
        t.solutions.length = t.size ∧ t.size = e.size ∧
        t.trace = t.solutions.flatMap Solution.steps ∧
        ∀ s ∈ t.solutions, s.steps.getLast? = some (.plain s.answer) := by
  refine ⟨⟨fun h => ?_, ?_⟩, fun t h => ?_⟩
  · obtain ⟨v, hv⟩ := evaluate_eq_ok_iff.mp h
    exact (mirrors_of_work hv).eq_leaf_iff.mp rfl
  · rintro ⟨v, rfl⟩
    rfl
  · obtain ⟨v, hv⟩ := evaluate_eq_ok_iff.mp h
    have hm := mirrors_of_work hv
    exact ⟨hm, hm.operators, t.length_solutions, hm.size_eq, t.trace_eq_flatMap, hm.restates⟩

/-- The product in `1 + 2 * 3` is worked first. -/
theorem evaluate_mirrors_of_sum :
    let one : Expr := .value (.scalar (.ofInt 1))
    let product : Expr :=
      .binary .scalarMultiply (.value (.scalar (.ofInt 2))) (.value (.scalar (.ofInt 3)))
    ∃ t, (binary .scalarPlus one product).evaluate = .ok t ∧
      t.Mirrors (.binary .scalarPlus one product) ∧
      t.solutions.map Solution.operator = [.scalarMultiply, .scalarPlus] := by
  intro one product
  have h := (evaluate_mirrors (.binary .scalarPlus one product)).2 _ rfl
  exact ⟨_, rfl, h.1, h.2.1⟩

end Expr
end WorkedAlgebra
