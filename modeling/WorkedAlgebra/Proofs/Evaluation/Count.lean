import WorkedAlgebra.Proofs.Evaluation.Work

/-!
# The count of an evaluator

An evaluator works one expression after another and counts the operations. It ends each of them as
if it had worked nothing before (**`Evaluator.counts_work`**).
-/

namespace WorkedAlgebra

/-! ## Reported solutions -/

def Event.solution? : Event → Option Solution
  | worked solution => some solution
  | _ => none

namespace Traced

variable {ε ε' α β : Type} {x : Traced ε α} {f : α → Traced ε β}

/-- The solutions that a computation reports, also before a fault. -/
def found (x : Traced ε α) : List Solution :=
  x.events.filterMap Event.solution?

theorem bind_of_ok {a : α} (h : x.outcome = .ok a) :
    x >>= f = ⟨x.events ++ (f a).events, (f a).outcome⟩ := by
  show x.andThen f = _
  rw [andThen, h]

theorem bind_of_error {e : ε} (h : x.outcome = .error e) : x >>= f = ⟨x.events, .error e⟩ := by
  show x.andThen f = _
  rw [andThen, h]

theorem found_bind_of_ok {a : α} (h : x.outcome = .ok a) :
    (x >>= f).found = x.found ++ (f a).found := by
  rw [bind_of_ok h, found, found, found, List.filterMap_append]

theorem found_bind_of_error {e : ε} (h : x.outcome = .error e) : (x >>= f).found = x.found := by
  rw [bind_of_error h, found, found]

@[simp] theorem ofExcept_ok_bind (a : α) (f : α → Traced ε β) : ofExcept (.ok a) >>= f = f a :=
  bind_of_ok rfl

@[simp] theorem ofExcept_error_bind (e : ε) (f : α → Traced ε β) :
    ofExcept (.error e) >>= f = fail e :=
  bind_of_error rfl

theorem found_map (g : α → β) (x : Traced ε α) : (g <$> x).found = x.found := by
  obtain ⟨es, _ | a⟩ := x
  · rfl
  · exact congrArg _ (List.append_nil es)

/-! ### Computations without operations -/

def Silent (x : Traced ε α) : Prop :=
  x.found = []

theorem silent_pure (a : α) : (pure a : Traced ε α).Silent := rfl

theorem silent_ofExcept (r : Except ε α) : (ofExcept r).Silent := rfl

theorem silent_fail (e : ε) : (fail e : Traced ε α).Silent := rfl

theorem Silent.mapFault (h : x.Silent) (g : ε → ε') : (x.mapFault g).Silent := h

theorem Silent.bind (h : x.Silent) (hf : ∀ a, (f a).Silent) : (x >>= f).Silent := by
  cases hx : x.outcome with
  | ok a => exact (found_bind_of_ok hx).trans (by rw [h, hf a, List.nil_append])
  | error e => exact (found_bind_of_error hx).trans h

end Traced

namespace Elimination

open Traced

theorem silent_reduced {ε : Type} {r c : ℕ} (columns : List (Fin c)) (g : Grid r c) :
    (reduced columns g : Traced ε (Reduction r c)).Silent := rfl

theorem silent_inverse (m : RatMatrix) : (inverse m).Silent := by
  unfold inverse
  split
  · refine (silent_reduced _ _).bind fun s => ?_
    split
    · exact silent_fail _
    · exact silent_pure _
  · exact silent_fail _

theorem silent_determinant (m : RatMatrix) : (determinant m).Silent := by
  unfold determinant
  split
  · exact (silent_reduced _ _).bind fun s => silent_pure _
  · exact silent_fail _

end Elimination

/-- **A method reports no operation itself.** -/
theorem Method.silent_apply {op : Operator} {method : Method} (bound : op.method? = some method)
    (first : Option Value) (second : Value) : (method.apply op first second).Silent := by
  have hmatrix : ∀ f, op.method? = some (.matrix f) → ∀ m, (f m).Silent := by
    intro f hf m
    cases op <;> cases hf
    case determinant => exact Elimination.silent_determinant m
    case rowReduce | rank | columnSpace =>
      exact (Elimination.silent_reduced _ _).bind fun s => Traced.silent_pure _
    case transpose => exact Traced.silent_ofExcept _
    case inverse => exact Elimination.silent_inverse m
  unfold Method.apply
  split
  · next solution hs =>
    refine Traced.Silent.mapFault ?_ _
    unfold Method.solve? at hs
    split at hs
    case h_5 f m => exact Option.some.inj hs ▸ hmatrix f bound m
    case h_6 => cases hs
    all_goals exact Option.some.inj hs ▸ Traced.silent_ofExcept _
  · exact Traced.silent_fail _

theorem Method.perform_cases {op : Operator} {method : Method} (bound : op.method? = some method)
    (first : Option Value) (second : Value) (tree : Solution → WorkTree) :
    let last := do
      let s ← method.perform op first second
      pure (tree s, s.answer)
    (∃ e, (method.apply op first second).outcome = .error e ∧ last.found = [] ∧
      last.outcome = .error e) ∨
    ∃ s, (method.apply op first second).outcome = .ok s ∧ last.found = [s] ∧
      last.outcome = .ok (tree s, s.answer) := by
  intro last
  have hsilent : (method.apply op first second).found = [] := Method.silent_apply bound first second
  cases hs : (method.apply op first second).outcome with
  | error e =>
    have hp : (method.perform op first second).outcome = .error e := by
      rw [Method.outcome_perform, hs]
    refine .inl ⟨e, rfl, ?_, congrArg Traced.outcome (Traced.bind_of_error hp)⟩
    rw [Traced.found_bind_of_error hp, Method.perform, Traced.found_bind_of_error hs, hsilent]
  | ok s =>
    have hp : (method.perform op first second).outcome = .ok s := by
      rw [Method.outcome_perform, hs]
    refine .inr ⟨s, rfl, ?_, congrArg Traced.outcome (Traced.bind_of_ok hp)⟩
    rw [Traced.found_bind_of_ok hp, Method.perform, Traced.found_bind_of_ok hs, hsilent]
    rfl

/-! ## Operations of an expression -/

namespace Expr

/-- **The solutions that are found in the order of working** until an expression comes to a value or
a fault ends the work. -/
inductive Performs : Expr → List Solution → Except EvalFault Value → Prop
  | value (v : Value) : Performs (.value v) [] (.ok v)
  | unary_unsupported {op : Operator} {operand : Expr} (unbound : op.method? = none) :
      Performs (.unary op operand) [] (.error (.unsupported op))
  | unary_operand {op : Operator} {method : Method} {operand : Expr} {ss : List Solution}
      {e : EvalFault} (bound : op.method? = some method) (h : Performs operand ss (.error e)) :
      Performs (.unary op operand) ss (.error e)
  | unary_undefined {op : Operator} {method : Method} {operand : Expr} {ss : List Solution}
      {b : Value} {e : EvalFault} (bound : op.method? = some method)
      (h : Performs operand ss (.ok b)) (fails : (method.apply op none b).outcome = .error e) :
      Performs (.unary op operand) ss (.error e)
  | unary {op : Operator} {method : Method} {operand : Expr} {ss : List Solution} {b : Value}
      {s : Solution} (bound : op.method? = some method) (h : Performs operand ss (.ok b))
      (solved : (method.apply op none b).outcome = .ok s) :
      Performs (.unary op operand) (ss ++ [s]) (.ok s.answer)
  | binary_unsupported {op : Operator} {left right : Expr} (unbound : op.method? = none) :
      Performs (.binary op left right) [] (.error (.unsupported op))
  | binary_first {op : Operator} {method : Method} {left right : Expr} {ss : List Solution}
      {e : EvalFault} (bound : op.method? = some method) (h : Performs left ss (.error e)) :
      Performs (.binary op left right) ss (.error e)
  | binary_second {op : Operator} {method : Method} {left right : Expr} {ss ts : List Solution}
      {a : Value} {e : EvalFault} (bound : op.method? = some method)
      (h₁ : Performs left ss (.ok a)) (h₂ : Performs right ts (.error e)) :
      Performs (.binary op left right) (ss ++ ts) (.error e)
  | binary_undefined {op : Operator} {method : Method} {left right : Expr}
      {ss ts : List Solution} {a b : Value} {e : EvalFault} (bound : op.method? = some method)
      (h₁ : Performs left ss (.ok a)) (h₂ : Performs right ts (.ok b))
      (fails : (method.apply op (some a) b).outcome = .error e) :
      Performs (.binary op left right) (ss ++ ts) (.error e)
  | binary {op : Operator} {method : Method} {left right : Expr} {ss ts : List Solution}
      {a b : Value} {s : Solution} (bound : op.method? = some method)
      (h₁ : Performs left ss (.ok a)) (h₂ : Performs right ts (.ok b))
      (solved : (method.apply op (some a) b).outcome = .ok s) :
      Performs (.binary op left right) (ss ++ ts ++ [s]) (.ok s.answer)

variable {e : Expr} {ss : List Solution}

theorem Performs.unique {r r' : Except EvalFault Value} {ts : List Solution}
    (h : e.Performs ss r) (h' : e.Performs ts r') : ss = ts ∧ r = r' := by
  induction h generalizing ts r' with
  | value => cases h'; exact ⟨rfl, rfl⟩
  | unary_unsupported | binary_unsupported => cases h' <;> simp_all
  | unary_operand | unary_undefined | unary => cases h' <;> grind
  | binary_first | binary_second | binary_undefined | binary => cases h' <;> grind

theorem Performs.length_eq {v : Value} (h : e.Performs ss (.ok v)) : ss.length = e.size := by
  generalize hr : Except.ok v = r at h
  induction h generalizing v with
  | value => rfl
  | unary _ _ _ ih => rw [List.length_append, ih rfl, List.length_singleton, size]
  | binary _ _ _ _ ih₁ ih₂ =>
    rw [List.length_append, List.length_append, ih₁ rfl, ih₂ rfl, List.length_singleton, size]
  | _ => cases hr

/-- **An expression that fails performs fewer operations than it has.** -/
theorem Performs.length_lt {fault : EvalFault} (h : e.Performs ss (.error fault)) :
    ss.length < e.size := by
  generalize hr : Except.error fault = r at h
  induction h generalizing fault with
  | unary_unsupported | binary_unsupported => exact Nat.succ_pos _
  | unary_operand _ _ ih | binary_first _ _ ih =>
    have := ih rfl
    simp only [size]
    omega
  | unary_undefined _ h =>
    have := h.length_eq
    simp only [size]
    omega
  | binary_second _ h₁ _ _ ih₂ =>
    have := h₁.length_eq
    have := ih₂ rfl
    simp only [size, List.length_append]
    omega
  | binary_undefined _ h₁ h₂ =>
    have := h₁.length_eq
    have := h₂.length_eq
    simp only [size, List.length_append]
    omega
  | _ => cases hr

theorem work_of_unbound {op : Operator} (h : op.method? = none) (operand left right : Expr) :
    (unary op operand).work = .fail (.unsupported op) ∧
      (binary op left right).work = .fail (.unsupported op) := by
  have hop : op.method = .error (.unsupported op) := Operator.method_eq_error_iff.mpr ⟨h, rfl⟩
  simp only [work, hop, Traced.ofExcept_error_bind, and_self]

/-- **The reported solutions of an expression are those that it performs.** -/
theorem performs_work (e : Expr) : e.Performs e.work.found (Prod.snd <$> e.work.outcome) := by
  induction e with
  | value v => exact .value v
  | unary op operand ih =>
    cases hm : op.method? with
    | none =>
      rw [(work_of_unbound hm operand operand operand).1]
      exact .unary_unsupported hm
    | some method =>
      have hop : op.method = .ok method := Operator.method_eq_ok_iff.mpr hm
      simp only [work, hop, Traced.ofExcept_ok_bind]
      cases hx : operand.work.outcome with
      | error f =>
        rw [hx] at ih
        rw [Traced.found_bind_of_error hx, Traced.bind_of_error hx]
        exact .unary_operand hm ih
      | ok p =>
        rw [hx] at ih
        rw [Traced.found_bind_of_ok hx, Traced.outcome_bind_of_ok hx]
        rcases Method.perform_cases hm none p.2 (.node · .leaf p.1) with
          ⟨f, hs, hfound, hout⟩ | ⟨s, hs, hfound, hout⟩
        · rw [hfound, hout, List.append_nil]
          exact .unary_undefined hm ih hs
        · rw [hfound, hout]
          exact .unary hm ih hs
  | binary op left right ih₁ ih₂ =>
    cases hm : op.method? with
    | none =>
      rw [(work_of_unbound hm left left right).2]
      exact .binary_unsupported hm
    | some method =>
      have hop : op.method = .ok method := Operator.method_eq_ok_iff.mpr hm
      simp only [work, hop, Traced.ofExcept_ok_bind]
      cases hx : left.work.outcome with
      | error f =>
        rw [hx] at ih₁
        rw [Traced.found_bind_of_error hx, Traced.bind_of_error hx]
        exact .binary_first hm ih₁
      | ok p =>
        rw [hx] at ih₁
        rw [Traced.found_bind_of_ok hx, Traced.outcome_bind_of_ok hx]
        cases hy : right.work.outcome with
        | error f =>
          rw [hy] at ih₂
          rw [Traced.found_bind_of_error hy, Traced.bind_of_error hy]
          exact .binary_second hm ih₁ ih₂
        | ok q =>
          rw [hy] at ih₂
          rw [Traced.found_bind_of_ok hy, Traced.outcome_bind_of_ok hy, ← List.append_assoc]
          rcases Method.perform_cases hm (some p.2) q.2 (.node · p.1 q.1) with
            ⟨f, hs, hfound, hout⟩ | ⟨s, hs, hfound, hout⟩
          · rw [hfound, hout, List.append_nil]
            exact .binary_undefined hm ih₁ ih₂ hs
          · rw [hfound, hout]
            exact .binary hm ih₁ ih₂ hs

theorem performs_iff {r : Except EvalFault Value} :
    e.Performs ss r ↔ ss = e.work.found ∧ r = Prod.snd <$> e.work.outcome := by
  refine ⟨fun h => h.unique e.performs_work, ?_⟩
  rintro ⟨rfl, rfl⟩
  exact e.performs_work

end Expr

/-! ## Evaluators -/

/-- **An evaluator does what a computation does**, and counts what that reports. -/
def Counts {α : Type} (y : Counted α) (x : Traced EvalFault α) : Prop :=
  ∀ ev : Evaluator, y.run.run ev = (x.outcome, ⟨ev.operations + x.found.length⟩)

section Counts

variable {α β : Type}

theorem counts_pure (a : α) : Counts (pure a) (pure a) := fun _ => rfl

theorem counts_ofExcept (r : Except EvalFault α) : Counts (ofExcept r) (.ofExcept r) := by
  intro ev
  cases r <;> rfl

theorem run_bind (y : Counted α) (g : α → Counted β) (ev : Evaluator) :
    (y >>= g).run.run ev = match y.run.run ev with
      | (.ok a, ev') => (g a).run.run ev'
      | (.error e, ev') => (.error e, ev') := by
  have hy : (y >>= g).run.run ev =
      (ExceptT.bindCont g (y.run.run ev).1).run (y.run.run ev).2 := rfl
  rw [hy]
  cases y.run.run ev with
  | mk r ev' => cases r <;> rfl

theorem Counts.bind {y : Counted α} {x : Traced EvalFault α} {g : α → Counted β}
    {f : α → Traced EvalFault β} (h : Counts y x)
    (hf : ∀ a, x.outcome = .ok a → Counts (g a) (f a)) : Counts (y >>= g) (x >>= f) := by
  intro ev
  rw [run_bind, h ev]
  cases hx : x.outcome with
  | error e => rw [Traced.found_bind_of_error hx, Traced.bind_of_error hx]
  | ok a =>
    rw [Traced.found_bind_of_ok hx, Traced.bind_of_ok hx, List.length_append, ← Nat.add_assoc]
    exact hf a hx ⟨ev.operations + x.found.length⟩

theorem Counts.map {y : Counted α} {x : Traced EvalFault α} (h : Counts y x) (g : α → β) :
    Counts (g <$> y) (g <$> x) := by
  rw [map_eq_pure_bind, map_eq_pure_bind]
  exact h.bind fun a _ => counts_pure (g a)

end Counts

namespace Evaluator

theorem counts_perform {op : Operator} {method : Method} (bound : op.method? = some method)
    (first : Option Value) (second : Value) :
    Counts (perform method op first second) (method.perform op first second) := by
  intro ev
  have hsilent : (method.apply op first second).found = [] := Method.silent_apply bound first second
  unfold perform Method.perform
  rw [run_bind]
  cases hs : (method.apply op first second).outcome with
  | error e =>
    rw [Traced.found_bind_of_error hs, Traced.bind_of_error hs, hsilent]
    rfl
  | ok s =>
    rw [Traced.found_bind_of_ok hs, Traced.bind_of_ok hs, hsilent]
    rfl

/-- **An evaluator works expressions as they are worked alone.** -/
theorem counts_work (e : Expr) : Counts (work e) e.work := by
  induction e with
  | value v => exact counts_pure _
  | unary op operand ih =>
    refine (counts_ofExcept op.method).bind fun method hm => ih.bind fun p _ => ?_
    exact (counts_perform (Operator.method_eq_ok_iff.mp hm) _ _).bind fun s _ => counts_pure _
  | binary op left right ih₁ ih₂ =>
    refine (counts_ofExcept op.method).bind fun method hm => ih₁.bind fun p _ =>
      ih₂.bind fun q _ => ?_
    exact (counts_perform (Operator.method_eq_ok_iff.mp hm) _ _).bind fun s _ => counts_pure _

theorem evaluate_eq (ev : Evaluator) (e : Expr) :
    ev.evaluate e = (e.evaluate, ⟨ev.operations + e.work.found.length⟩) := by
  rw [← Traced.found_map Prod.fst e.work]
  exact (counts_work e).map Prod.fst ev

/-- **Expressions that are worked in turn do not influence each other**, and after each the count
has grown by the operations that it performed. -/
theorem evaluateAll_isolates (ev : Evaluator) (es : List Expr) :
    (∀ i : ℕ, (ev.evaluateAll es)[i]? = es[i]?.map fun e =>
      (e.evaluate,
        ⟨ev.operations + ((es.take (i + 1)).map fun e => e.work.found.length).sum⟩)) ∧
      ∀ e : Expr,
        (∀ ss r, e.Performs ss r ↔ ss = e.work.found ∧ r = Prod.snd <$> e.work.outcome) ∧
        (∀ t, e.evaluate = .ok t → e.work.found.length = e.size) ∧
        ∀ fault, e.evaluate = .error fault → e.work.found.length < e.size := by
  refine ⟨fun i => ?_, fun e => ⟨fun _ _ => Expr.performs_iff, fun t h => ?_, fun fault h => ?_⟩⟩
  · induction es generalizing ev i with
    | nil => rfl
    | cons e es ih =>
      rw [evaluateAll, evaluate_eq]
      cases i with
      | zero => simp
      | succ i => simp [ih, Nat.add_assoc]
  · obtain ⟨v, hv⟩ := Expr.evaluate_eq_ok_iff.mp h
    have hp := e.performs_work
    rw [hv] at hp
    exact hp.length_eq
  · have hp := e.performs_work
    rw [Expr.evaluate_eq_error_iff.mp h] at hp
    exact hp.length_lt

/-- The product in `2 * 3 + 1 / 0` is counted, and the sum after it is worked as it is alone. -/
theorem evaluateAll_isolates_of_quotient :
    let number (n : ℤ) : Expr := .value (.scalar (.ofInt n))
    let failing : Expr := .binary .scalarPlus (.binary .scalarMultiply (number 2) (number 3))
      (.binary .scalarDivide (number 1) (number 0))
    let sum : Expr := .binary .scalarPlus (number 1) (number 2)
    failing.evaluate = .error (.undefined .scalarDivide .divisionByZero) ∧
      failing.work.found.length < failing.size ∧ sum.work.found.length = sum.size ∧
      (fresh.evaluateAll [failing, sum])[1]? = some (sum.evaluate, ⟨1 + 1⟩) := by
  intro number failing sum
  have h := evaluateAll_isolates fresh [failing, sum]
  have hfails : failing.evaluate = .error (.undefined .scalarDivide .divisionByZero) := rfl
  exact ⟨hfails, (h.2 failing).2.2 _ hfails, (h.2 sum).2.1 _ rfl, h.1 1⟩

end Evaluator
end WorkedAlgebra
