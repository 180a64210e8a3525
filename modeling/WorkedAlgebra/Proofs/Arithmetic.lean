import WorkedAlgebra.Proofs.Calculation

/-!
# Arithmetic on scalars

A token list of scalars, the four operators on them and brackets is worked to the number that
arithmetic gives it (**`Amounts.workedTo`**), or zero divides in it and the work fails.
-/

namespace WorkedAlgebra

open Window

/-- The tokens of arithmetic: scalars, the four operators on them, and brackets. -/
def Token.IsArithmetic : Token → Prop
  | .value v => v.kind = .scalar
  | .operator op => op ∈ [.scalarPlus, .scalarMinus, .scalarMultiply, .scalarDivide]
  | .bracket _ => True

instance : DecidablePred Token.IsArithmetic
  | .value v => inferInstanceAs (Decidable (v.kind = .scalar))
  | .operator op =>
    inferInstanceAs (Decidable (op ∈ [.scalarPlus, .scalarMinus, .scalarMultiply, .scalarDivide]))
  | .bracket _ => inferInstanceAs (Decidable True)

theorem Token.isArithmetic_operator_iff {op : Operator} :
    (Token.operator op).IsArithmetic ↔
      op = .scalarPlus ∨ op = .scalarMinus ∨ op = .scalarMultiply ∨ op = .scalarDivide := by
  simp [IsArithmetic]

/-- The levels of arithmetic: a sum is made of products, and a product of factors. -/
inductive Level
  | sum
  | product
  | factor

/-- **The rules of arithmetic**: products and sums are worked from left to right, and nothing is
divided by zero. -/
inductive Amounts : Level → List Token → ℚ → Prop
  | number (s : Scalar) : Amounts .factor [.value (.scalar s)] s.value
  | brackets {w : List Token} {x : ℚ} (inside : Amounts .sum w x) : Amounts .factor (enclose w) x
  | multiply {l r : List Token} {x y : ℚ} (first : Amounts .product l x)
      (second : Amounts .factor r y) :
      Amounts .product (l ++ .operator .scalarMultiply :: r) (x * y)
  | divide {l r : List Token} {x y : ℚ} (first : Amounts .product l x)
      (second : Amounts .factor r y) (nonzero : y ≠ 0) :
      Amounts .product (l ++ .operator .scalarDivide :: r) (x / y)
  | plus {l r : List Token} {x y : ℚ} (first : Amounts .sum l x) (second : Amounts .product r y) :
      Amounts .sum (l ++ .operator .scalarPlus :: r) (x + y)
  | minus {l r : List Token} {x y : ℚ} (first : Amounts .sum l x)
      (second : Amounts .product r y) :
      Amounts .sum (l ++ .operator .scalarMinus :: r) (x - y)
  | product {w : List Token} {x : ℚ} (single : Amounts .factor w x) : Amounts .product w x
  | sum {w : List Token} {x : ℚ} (single : Amounts .product w x) : Amounts .sum w x

/-- Somewhere in a token list the factor after a division sign amounts to zero. -/
def ZeroDivisor (w : List Token) : Prop :=
  ∃ l v r, w = l ++ .operator .scalarDivide :: (v ++ r) ∧ Amounts .factor v 0

theorem ZeroDivisor.embed (l r : List Token) {w : List Token} (h : ZeroDivisor w) :
    ZeroDivisor (l ++ (w ++ r)) := by
  obtain ⟨l', v, r', rfl, hv⟩ := h
  exact ⟨l ++ l', v, r' ++ r, by simp, hv⟩

/-! ## Working what amounts to a number -/

variable {op : Operator} {solve : Scalar → Scalar → Except MethodFault Solution}

theorem outcome_apply_scalars (op : Operator) (a b : Scalar) :
    ((Method.scalars solve).apply op (some (.scalar a)) (.scalar b)).outcome =
      (solve a b).mapError (.undefined op) := rfl

theorem work_scalars_eq_error {left right : Expr} {first second : WorkTree} {a b : Scalar}
    {fault : MethodFault} (hs : solve a b = .error fault)
    (bound : op.method? = some (.scalars solve))
    (ha : left.work.outcome = .ok (first, .scalar a))
    (hb : right.work.outcome = .ok (second, .scalar b)) :
    (Expr.binary op left right).work.outcome = .error (.undefined op fault) := by
  refine Expr.work_binary_eq_error_iff.mpr
    (.inr ⟨_, bound, .inr ⟨first, _, ha, .inr ⟨second, _, hb, ?_⟩⟩⟩)
  rw [outcome_apply_scalars, hs]
  rfl

/-- A token list is derivable at a level, and what is derived is worked to a number. -/
def WorkedTo (k : ℕ) (w : List Token) (x : ℚ) : Prop :=
  ∃ e t s, Derives k w e ∧ e.work.outcome = .ok (t, .scalar s) ∧ s.value = x

namespace WorkedTo

variable {j k : ℕ} {l r w : List Token} {x y z : ℚ}

theorem number (s : Scalar) : WorkedTo 5 [.value (.scalar s)] s.value :=
  ⟨_, .leaf, s, .value _, rfl, rfl⟩

theorem group (h : WorkedTo 1 w x) : WorkedTo 5 (enclose w) x := by
  obtain ⟨e, t, s, hd, hw, hs⟩ := h
  exact ⟨e, t, s, hd.group, hw, hs⟩

theorem lower (h : WorkedTo j w x) (hk : 1 ≤ k) (hkj : k ≤ j) : WorkedTo k w x := by
  obtain ⟨e, t, s, hd, hw, hs⟩ := h
  exact ⟨e, t, s, hd.lower hk hkj, hw, hs⟩

/-- **An operator between two lists is worked to its result on the numbers that they are worked
to.** -/
theorem binary (rank : op.strength = k) (below : k < 4) (bound : op.method? = some (.scalars solve))
    (solved : ∀ a b : Scalar, a.value = x → b.value = y →
      solve a b = .ok (ScalarArithmetic.solution op a b z))
    (first : WorkedTo k l x) (second : WorkedTo (k + 1) r y) :
    WorkedTo k (l ++ .operator op :: r) z := by
  obtain ⟨e₁, t₁, a, hd₁, hw₁, ha⟩ := first
  obtain ⟨e₂, t₂, b, hd₂, hw₂, hb⟩ := second
  refine ⟨_, _, _, .binary rank below hd₁ hd₂, Expr.work_binary_eq_ok_iff.mpr
    ⟨_, t₁, _, t₂, _, ScalarArithmetic.solution op a b z, bound, hw₁, hw₂, ?_, rfl, rfl⟩, rfl⟩
  rw [outcome_apply_scalars, solved a b ha hb]
  rfl

end WorkedTo

def Level.rank : Level → ℕ
  | sum => 1
  | product => 2
  | factor => 5

/-- **What amounts to a number is worked to it.** -/
theorem Amounts.workedTo {k : Level} {w : List Token} {x : ℚ} (h : Amounts k w x) :
    WorkedTo k.rank w x := by
  induction h with
  | number s => exact .number s
  | brackets _ ih => exact ih.group
  | multiply _ _ ih₁ ih₂ =>
    have second : WorkedTo 3 _ _ := ih₂.lower (by decide) (by decide)
    exact .binary rfl (by decide) rfl (by rintro a b rfl rfl; rfl) ih₁ second
  | divide _ _ nonzero ih₁ ih₂ =>
    have second : WorkedTo 3 _ _ := ih₂.lower (by decide) (by decide)
    exact .binary rfl (by decide) rfl (by rintro a b rfl rfl; exact if_neg nonzero) ih₁ second
  | plus _ _ ih₁ ih₂ => exact .binary rfl (by decide) rfl (by rintro a b rfl rfl; rfl) ih₁ ih₂
  | minus _ _ ih₁ ih₂ => exact .binary rfl (by decide) rfl (by rintro a b rfl rfl; rfl) ih₁ ih₂
  | product _ ih => exact ih.lower (by decide) (by decide)
  | sum _ ih => exact ih.lower (by decide) (by decide)

theorem Amounts.work_eq_ok {k : Level} {n : ℕ} {w : List Token} {x : ℚ} {e : Expr}
    (h : Amounts k w x) (hd : Derives n w e) :
    ∃ t s, e.work.outcome = .ok (t, .scalar s) ∧ s.value = x := by
  obtain ⟨e', t, s, hd', hw, hs⟩ := h.workedTo
  rw [hd.unique hd']
  exact ⟨t, s, hw, hs⟩

theorem Amounts.unique {j k : Level} {w : List Token} {x y : ℚ} (hx : Amounts j w x)
    (hy : Amounts k w y) : x = y := by
  obtain ⟨e, t, s, hd, hw, rfl⟩ := hx.workedTo
  obtain ⟨t', s', hw', rfl⟩ := hy.work_eq_ok hd
  have hp := Except.ok.inj (hw.symm.trans hw')
  rw [Value.scalar.inj (congrArg Prod.snd hp)]

/-! ## What is derivable -/

def Level.ofRank : ℕ → Level
  | 0 | 1 => sum
  | 2 => product
  | _ + 3 => factor

theorem Amounts.lift {n : ℕ} {w : List Token} {x : ℚ} (h : Amounts (.ofRank (n + 1)) w x) :
    Amounts (.ofRank n) w x := by
  match n, h with
  | 0, h => exact h
  | 1, h => exact h.sum
  | 2, h => exact h.product
  | _ + 3, h => exact h

theorem exists_solve {op : Operator} (hop : (Token.operator op).IsArithmetic) :
    ∃ solve, op.method? = some (.scalars solve) := by
  rcases Token.isArithmetic_operator_iff.mp hop with rfl | rfl | rfl | rfl <;> exact ⟨_, rfl⟩

theorem Amounts.binary {op : Operator} (hop : (Token.operator op).IsArithmetic) {l r : List Token}
    {x y : ℚ} (first : Amounts (.ofRank op.strength) l x)
    (second : Amounts (.ofRank (op.strength + 1)) r y) :
    (∃ z, Amounts (.ofRank op.strength) (l ++ .operator op :: r) z) ∨
      op = .scalarDivide ∧ y = 0 ∧ ZeroDivisor (l ++ .operator op :: r) := by
  rcases Token.isArithmetic_operator_iff.mp hop with rfl | rfl | rfl | rfl
  · exact .inl ⟨_, first.plus second⟩
  · exact .inl ⟨_, first.minus second⟩
  · exact .inl ⟨_, first.multiply second⟩
  · by_cases hy : y = 0
    · subst hy
      exact .inr ⟨rfl, rfl, l, r, [], by rw [List.append_nil], second⟩
    · exact .inl ⟨_, first.divide second hy⟩

/-- **What is derivable from the tokens of arithmetic amounts to a number, or else zero divides in
it and the work fails.** -/
theorem Derives.amounts_or_zeroDivisor {k : ℕ} {w : List Token} {e : Expr} (h : Derives k w e)
    (plain : ∀ t ∈ w, t.IsArithmetic) :
    (∃ x, Amounts (.ofRank k) w x) ∨
      ZeroDivisor w ∧ e.work.outcome = .error (.undefined .scalarDivide .divisionByZero) := by
  induction h with
  | value v =>
    cases v with
    | scalar s => exact .inl ⟨_, .number s⟩
    | matrix m => cases plain (.value (.matrix m)) List.mem_cons_self
  | @group w e _ ih =>
    rcases ih fun t ht => plain t (by simp [enclose, ht]) with ⟨x, hx⟩ | ⟨hz, he⟩
    · exact .inl ⟨x, hx.brackets⟩
    · exact .inr ⟨hz.embed [.bracket .opening] [.bracket .closing], he⟩
  | @unary op w e rank _ _ =>
    have hop := plain (.operator op) List.mem_cons_self
    rcases Token.isArithmetic_operator_iff.mp hop with rfl | rfl | rfl | rfl <;> cases rank
  | @binary k op l r a b rank _ first second ih₁ ih₂ =>
    subst rank
    have hop := plain (.operator op) (by simp)
    obtain ⟨solve, bound⟩ := exists_solve hop
    rcases ih₁ fun t ht => plain t (by simp [ht]) with ⟨x, hx⟩ | ⟨hz, he⟩
    · obtain ⟨t₁, s₁, ha, -⟩ := hx.work_eq_ok first
      rcases ih₂ fun t ht => plain t (by simp [ht]) with ⟨y, hy⟩ | ⟨hz, he⟩
      · rcases hx.binary hop hy with hz | ⟨rfl, rfl, hz⟩
        · exact .inl hz
        · obtain ⟨t₂, s₂, hb, hs₂⟩ := hy.work_eq_ok second
          have solved : ScalarArithmetic.divide s₁ s₂ = .error .divisionByZero := if_pos hs₂
          exact .inr ⟨hz, work_scalars_eq_error solved rfl ha hb⟩
      · -- the second operand fails after the first has been worked
        have hz := hz.embed (l ++ [.operator op]) []
        rw [List.append_nil, List.append_assoc] at hz
        exact .inr ⟨hz, Expr.work_binary_eq_error_iff.mpr
          (.inr ⟨_, bound, .inr ⟨t₁, _, ha, .inl he⟩⟩)⟩
    · exact .inr ⟨hz.embed [] (.operator op :: r), Expr.work_binary_eq_error_iff.mpr
        (.inr ⟨_, bound, .inl he⟩)⟩
  | lift _ _ ih =>
    rcases ih plain with ⟨x, hx⟩ | hz
    · exact .inl ⟨x, hx.lift⟩
    · exact .inr hz

/-! ## What amounts to a number is not divided by zero -/

theorem Amounts.nested {k : Level} {w : List Token} {x : ℚ} (h : Amounts k w x) : Nested w := by
  obtain ⟨_, _, _, hd, _⟩ := h.workedTo
  exact hd.nested

theorem Amounts.eq_of_append {v v' r r' : List Token} {x x' : ℚ} (h : Amounts .factor v x)
    (h' : Amounts .factor v' x') (hw : v ++ r = v' ++ r') : v = v' := by
  cases h with
  | number s =>
    cases h' with
    | number s' =>
      obtain ⟨hs, -⟩ := List.cons.inj hw
      rw [hs]
    | brackets => exact absurd (List.cons.inj hw).1 (by simp)
  | @brackets w x inside =>
    cases h' with
    | number s' => exact absurd (List.cons.inj hw).1 (by simp)
    | @brackets w' x' inside' =>
      simp only [enclose, List.cons_append, List.append_assoc, List.nil_append] at hw
      rw [inside.nested.eq_of_append_closing inside'.nested (List.cons.inj hw).2]

/-- Every division sign stands before a factor that does not amount to zero. -/
def NonzeroDivisors (w : List Token) : Prop :=
  ∀ l s, w = l ++ .operator .scalarDivide :: s →
    ∃ v r y, s = v ++ r ∧ Amounts .factor v y ∧ y ≠ 0

namespace NonzeroDivisors

variable {u w : List Token}

theorem not_zeroDivisor (h : NonzeroDivisors w) : ¬ ZeroDivisor w := by
  rintro ⟨l, v, r, rfl, hv⟩
  obtain ⟨v', r', y, hs, hv', hy⟩ := h l (v ++ r) rfl
  obtain rfl := hv.eq_of_append hv' hs
  exact hy (hv'.unique hv)

theorem cons {t : Token} (ht : t ≠ .operator .scalarDivide) (h : NonzeroDivisors w) :
    NonzeroDivisors (t :: w) := by
  rintro (_ | ⟨t', l⟩) s hs
  · exact absurd (List.cons.inj hs).1 ht
  · exact h l s (List.cons.inj hs).2

theorem append (hu : NonzeroDivisors u) (hw : NonzeroDivisors w) : NonzeroDivisors (u ++ w) := by
  intro l s hs
  rcases List.append_eq_append_iff.mp hs with ⟨l', rfl, hl⟩ | ⟨s', rfl, hs'⟩
  · exact hw l' s hl
  · cases s' with
    | nil => exact hw [] s (by simpa using hs'.symm)
    | cons t s' =>
      obtain ⟨rfl, rfl⟩ := List.cons.inj hs'
      obtain ⟨v, r, y, rfl, hv, hy⟩ := hu l s' rfl
      exact ⟨v, r ++ w, y, List.append_assoc .., hv, hy⟩

theorem divide {y : ℚ} (hy : y ≠ 0) (hv : Amounts .factor w y) (h : NonzeroDivisors w) :
    NonzeroDivisors (.operator .scalarDivide :: w) := by
  rintro (_ | ⟨t', l⟩) s hs
  · exact ⟨w, [], y, by rw [List.append_nil, (List.cons.inj hs).2], hv, hy⟩
  · exact h l s (List.cons.inj hs).2

end NonzeroDivisors

theorem nonzeroDivisors_singleton {t : Token} (ht : t ≠ .operator .scalarDivide) :
    NonzeroDivisors [t] :=
  .cons ht fun l s hs => absurd hs (by simp)

theorem Amounts.nonzeroDivisors {k : Level} {w : List Token} {x : ℚ} (h : Amounts k w x) :
    NonzeroDivisors w := by
  induction h with
  | number s => exact nonzeroDivisors_singleton (by simp)
  | brackets _ ih => exact (ih.append (nonzeroDivisors_singleton (by simp))).cons (by simp)
  | multiply _ _ ih₁ ih₂ => exact ih₁.append (ih₂.cons (by simp))
  | divide _ second nonzero ih₁ ih₂ => exact ih₁.append (ih₂.divide nonzero second)
  | plus _ _ ih₁ ih₂ => exact ih₁.append (ih₂.cons (by simp))
  | minus _ _ ih₁ ih₂ => exact ih₁.append (ih₂.cons (by simp))
  | product _ ih => exact ih
  | sum _ ih => exact ih

/-- **Zero does not divide in what amounts to a number.** -/
theorem Amounts.not_zeroDivisor {k : Level} {w : List Token} {x : ℚ} (h : Amounts k w x) :
    ¬ ZeroDivisor w :=
  h.nonzeroDivisors.not_zeroDivisor

/-! ## Calculations -/

theorem Derives.ne_value {k : ℕ} {w : List Token} {e : Expr} (h : Derives k w e)
    (operated : ∃ op, .operator op ∈ w) (v : Value) : e ≠ .value v := by
  intro he
  obtain ⟨n, rfl⟩ := h.eq_enclosed he
  simp [Token.enclosed] at operated

theorem answer?_of_work {k : ℕ} {w : List Token} {e : Expr} {t : WorkTree} {v : Value}
    (h : Derives k w e) (operated : ∃ op, .operator op ∈ w) (hw : e.work.outcome = .ok (t, v)) :
    t.answer? = some v := by
  have hv := Expr.value?_of_work hw
  cases t with
  | leaf =>
    obtain ⟨u, hu⟩ := evaluate_eq_leaf_iff.mp (Expr.evaluate_eq_ok_iff.mpr ⟨v, hw⟩)
    exact absurd hu (h.ne_value operated u)
  | node s first second => exact hv

/-- **Arithmetic.** A well-formed list of scalars, operators on them and brackets is answered with
the number that it amounts to, or else fails on a division by zero. -/
theorem calculate_arithmetic (tokens : List Token) (formed : ∃ e, Derives 1 tokens e)
    (plain : ∀ t ∈ tokens, t.IsArithmetic) (operated : ∃ op, .operator op ∈ tokens) :
    (¬ ZeroDivisor tokens →
      ∃ x, Amounts .sum tokens x ∧ (∀ y, Amounts .sum tokens y → y = x) ∧
        ∃ t s, calculate .unlimited tokens = .ok t ∧ t.answer? = some (.scalar s) ∧
          s.value = x) ∧
    (ZeroDivisor tokens →
      ∃ fault, calculate .unlimited tokens = .error fault ∧ fault.report.code = 400 ∧
        fault.report.operator = some .scalarDivide ∧
        fault.report.message = "division by zero") := by
  obtain ⟨e, hd⟩ := formed
  have admitted := Limits.admits_unlimited tokens
  rcases hd.amounts_or_zeroDivisor plain with ⟨x, hx⟩ | ⟨hz, he⟩
  · refine ⟨fun _ => ⟨x, hx, fun y hy => hy.unique hx, ?_⟩, fun hz => absurd hz hx.not_zeroDivisor⟩
    obtain ⟨t, s, hw, hs⟩ := hx.work_eq_ok hd
    have ht := outcome_calculateTraced_of_derives admitted hd (Expr.evaluate_eq_ok_iff.mpr ⟨_, hw⟩)
    exact ⟨t, s, calculate_eq_ok_iff.mpr ⟨e, ht⟩, answer?_of_work hd operated hw, hs⟩
  · refine ⟨fun hn => absurd hz hn, fun _ => ?_⟩
    have hf := outcome_calculateTraced_of_unworkable admitted hd
      (Expr.evaluate_eq_error_iff.mpr he)
    exact ⟨_, calculate_eq_error_iff.mpr hf, rfl, rfl, rfl⟩

/-- `8 - 6 / (1 + 2) - 1` is 5, and in `1 / (2 - 2)` zero divides. -/
theorem calculate_arithmetic_of_quotients :
    let n (i : Int) : Token := .value (.scalar (.ofInt i))
    let five : List Token := [n 8, .operator .scalarMinus, n 6, .operator .scalarDivide] ++
      enclose [n 1, .operator .scalarPlus, n 2] ++ [.operator .scalarMinus, n 1]
    let undefined : List Token := [n 1, .operator .scalarDivide] ++
      enclose [n 2, .operator .scalarMinus, n 2]
    (∃ t s, calculate .unlimited five = .ok t ∧ t.answer? = some (.scalar s) ∧ s.value = 5) ∧
    ∃ fault, calculate .unlimited undefined = .error fault ∧ fault.report.code = 400 ∧
      fault.report.operator = some .scalarDivide ∧
      fault.report.message = "division by zero" := by
  intro n five undefined
  have number (i : Int) : Amounts .factor [n i] i := .number (.ofInt i)
  constructor
  · have three : Amounts .factor (enclose [n 1, .operator .scalarPlus, n 2]) (1 + 2) :=
      .brackets (.plus (number 1).product.sum (number 2).product)
    have two : Amounts .product
        ([n 6, .operator .scalarDivide] ++ enclose [n 1, .operator .scalarPlus, n 2])
        (6 / (1 + 2)) := .divide (number 6).product three (by norm_num)
    have amount : Amounts .sum five (8 - 6 / (1 + 2) - 1) :=
      .minus (.minus (number 8).product.sum two) (number 1).product
    obtain ⟨e, _, _, hd, -⟩ := amount.workedTo
    obtain ⟨x, -, unique, t, s, ht, ha, hs⟩ :=
      (calculate_arithmetic five ⟨e, hd⟩ (by decide) ⟨.scalarMinus, by decide⟩).1
        amount.not_zeroDivisor
    refine ⟨t, s, ht, ha, ?_⟩
    rw [hs, ← unique _ amount]
    norm_num
  · have zero : Amounts .factor (enclose [n 2, .operator .scalarMinus, n 2]) (2 - 2) :=
      .brackets (.minus (number 2).product.sum (number 2).product)
    rw [sub_self] at zero
    have one : Derives 2 [n 1] _ := (Derives.value _).lower (by decide) (by decide)
    have difference := Derives.binary_values .scalarMinus rfl (by decide) (.scalar (.ofInt 2))
      (.scalar (.ofInt 2))
    have rank : Operator.strength .scalarDivide = 2 := rfl
    have hd := one.binary rank (by decide) (difference.group.lower (by decide) (by decide))
    exact (calculate_arithmetic undefined ⟨_, hd.lower (by decide) (by decide)⟩ (by decide)
      ⟨.scalarDivide, by decide⟩).2 ⟨[n 1], _, [], by rw [List.append_nil]; rfl, zero⟩

end WorkedAlgebra
