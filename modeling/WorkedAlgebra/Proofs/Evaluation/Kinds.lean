import WorkedAlgebra.Proofs.Evaluation.Work

/-!
# Kinds of expressions

Whether the operands of an expression are of the right kinds can be told before it is worked
(**`Expr.hasKind_of_work`**, **`Expr.HasKind.undefined_of_work`**).
-/

namespace WorkedAlgebra

namespace Expr

/-- An expression **has a kind**: that of a value, or that of the answers of an operator whose
method takes the kinds of its operands. -/
inductive HasKind : Expr → ValueKind → Prop
  | value (v : Value) : HasKind (.value v) v.kind
  | unary {op : Operator} {method : Method} {operand : Expr} {k : ValueKind}
      (bound : op.method? = some method) (child : HasKind operand k)
      (accepts : method.Accepts none k) : HasKind (.unary op operand) op.answerKind
  | binary {op : Operator} {method : Method} {left right : Expr} {k₁ k₂ : ValueKind}
      (bound : op.method? = some method) (child₁ : HasKind left k₁) (child₂ : HasKind right k₂)
      (accepts : method.Accepts (some k₁) k₂) : HasKind (.binary op left right) op.answerKind

theorem HasKind.unique {e : Expr} {k k' : ValueKind} (h : HasKind e k) (h' : HasKind e k') :
    k = k' := by
  cases h with
  | value v => cases h'; rfl
  | unary => cases h'; rfl
  | binary => cases h'; rfl

variable {e : Expr} {t : WorkTree} {v : Value} {k : ValueKind} {fault : EvalFault}

theorem hasKind_of_work (h : e.work.outcome = .ok (t, v)) : HasKind e v.kind := by
  induction e generalizing t v with
  | value u =>
    obtain ⟨-, rfl⟩ := work_value_eq_ok_iff.mp h
    exact .value v
  | unary op operand ih =>
    obtain ⟨method, second, b, s, bound, hb, hs, -, rfl⟩ := work_unary_eq_ok_iff.mp h
    obtain ⟨accepts, answer, steps, rfl, hk⟩ := Method.apply_eq_ok bound hs
    have hkind := HasKind.unary bound (ih hb) accepts
    rwa [← hk] at hkind
  | binary op left right ih₁ ih₂ =>
    obtain ⟨method, first, a, second, b, s, bound, ha, hb, hs, -, rfl⟩ :=
      work_binary_eq_ok_iff.mp h
    obtain ⟨accepts, answer, steps, rfl, hk⟩ := Method.apply_eq_ok bound hs
    have hkind := HasKind.binary bound (ih₁ ha) (ih₂ hb) accepts
    rwa [← hk] at hkind

theorem HasKind.undefined_of_work (hk : HasKind e k) (h : e.work.outcome = .error fault) :
    ∃ op ∈ e.operators, ∃ f, fault = .undefined op f := by
  induction hk with
  | value v => cases h
  | @unary op method operand k bound child accepts ih =>
    rcases work_unary_eq_error_iff.mp h with ⟨hn, -⟩ | ⟨method', bound', h | ⟨second, b, hb, h⟩⟩
    · rw [bound] at hn
      cases hn
    · obtain ⟨op', hop, hf⟩ := ih h
      exact ⟨op', by simp [operators, hop], hf⟩
    · obtain rfl := Option.some.inj (bound.symm.trans bound')
      -- what the operand comes to has the kind that the method takes
      have hkb := (hasKind_of_work hb).unique child
      rcases Method.apply_eq_error h with hna | hf
      · rw [Option.map_none, hkb] at hna
        exact absurd accepts hna
      · exact ⟨op, by simp [operators], hf⟩
  | @binary op method left right k₁ k₂ bound child₁ child₂ accepts ih₁ ih₂ =>
    rcases work_binary_eq_error_iff.mp h with ⟨hn, -⟩ | ⟨method', bound', h |
      ⟨first, a, ha, h | ⟨second, b, hb, h⟩⟩⟩
    · rw [bound] at hn
      cases hn
    · obtain ⟨op', hop, hf⟩ := ih₁ h
      exact ⟨op', by simp [operators, hop], hf⟩
    · obtain ⟨op', hop, hf⟩ := ih₂ h
      exact ⟨op', by simp [operators, hop], hf⟩
    · obtain rfl := Option.some.inj (bound.symm.trans bound')
      have hka := (hasKind_of_work ha).unique child₁
      have hkb := (hasKind_of_work hb).unique child₂
      rcases Method.apply_eq_error h with hna | hf
      · rw [Option.map_some, hka, hkb] at hna
        exact absurd accepts hna
      · exact ⟨op, by simp [operators], hf⟩

/-- **Kinds are sound.** What is evaluated has the kind of its answer, and what has a kind fails
only where one of its operators is undefined on its operands. -/
theorem kind_sound (e : Expr) :
    (∀ t, e.evaluate = .ok t → ∃ v, t.value? e = some v ∧ HasKind e v.kind) ∧
      ∀ k, HasKind e k → ∀ fault, e.evaluate = .error fault →
        fault.report.code = 400 ∧ ∃ op ∈ e.operators, fault.report.operator = some op := by
  constructor
  · intro t h
    obtain ⟨v, hv⟩ := evaluate_eq_ok_iff.mp h
    exact ⟨v, value?_of_work hv, hasKind_of_work hv⟩
  · intro k hk fault h
    obtain ⟨op, hop, f, rfl⟩ := hk.undefined_of_work (evaluate_eq_error_iff.mp h)
    exact ⟨rfl, op, hop, rfl⟩

theorem kind_sound_of_quotient :
    let quotient (n : Int) : Expr :=
      .binary .scalarDivide (.value (.scalar (.ofInt 1))) (.value (.scalar (.ofInt n)))
    (∃ t v, (quotient 2).evaluate = .ok t ∧ t.value? (quotient 2) = some v ∧
        HasKind (quotient 2) v.kind) ∧
      HasKind (quotient 0) .scalar ∧
      (quotient 0).evaluate = .error (.undefined .scalarDivide .divisionByZero) ∧
      (EvalFault.undefined .scalarDivide .divisionByZero).report.code = 400 := by
  intro quotient
  have hk : HasKind (quotient 0) .scalar := .binary rfl (.value _) (.value _) (.scalars _)
  have h : (quotient 0).evaluate = .error (.undefined .scalarDivide .divisionByZero) := rfl
  obtain ⟨v, hv, hkind⟩ := (kind_sound (quotient 2)).1 _ rfl
  exact ⟨⟨_, v, rfl, hv, hkind⟩, hk, h, ((kind_sound (quotient 0)).2 _ hk _ h).1⟩

end Expr
end WorkedAlgebra
