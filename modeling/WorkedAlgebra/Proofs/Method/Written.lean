import WorkedAlgebra.Method.Binding
import WorkedAlgebra.Proofs.Number.Formula

/-!
# Written forms are formulas

Outside decimal mode the numbers inside the steps of a solution are written exactly, so that a
written form is a formula (**`ScalarArithmetic.written_denotes`**).
-/

namespace WorkedAlgebra

/-! ## Texts of numbers -/

namespace Formula

theorem denotes_toDigits (n : ℕ) : Denotes .power (Nat.toDigits 10 n) n :=
  (Denotes.numeral (Numeral.digits_toDigits n)).factor

theorem denotes_integerText {z : ℤ} (h : 0 ≤ z) :
    Denotes .power (Numeral.integerText z).toList z := by
  obtain ⟨n, rfl⟩ := Int.eq_ofNat_of_zero_le h
  rw [Numeral.toList_integerText, if_neg (by omega)]
  exact_mod_cast denotes_toDigits n

theorem denotes_fractionText {q : ℚ} (h : 0 ≤ q) :
    Denotes .product (Numeral.fractionText q).toList q := by
  have hnum := denotes_integerText (Rat.num_nonneg.mpr h)
  rw [Numeral.toList_fractionText]
  by_cases hq : q.den = 1
  · rw [if_pos hq]
    rw [Rat.coe_int_num_of_den_eq_one hq] at hnum
    exact hnum.single
  · have hover := hnum.single.quotient (denotes_toDigits q.den) (Nat.cast_ne_zero.mpr q.den_nz)
    rw [if_neg hq]
    rwa [Rat.num_div_den] at hover

theorem toList_integerText_of_neg {z : ℤ} (h : z < 0) :
    (Numeral.integerText z).toList = '-' :: (Numeral.integerText (-z)).toList := by
  rw [Numeral.toList_integerText, Numeral.toList_integerText, if_pos h,
    if_neg (not_lt.mpr (Int.neg_nonneg_of_nonpos h.le)), Int.natAbs_neg]

theorem denotes_neg_fractionText {q : ℚ} (h : q < 0) :
    Denotes .sum (Numeral.fractionText q).toList q := by
  have htext : (Numeral.fractionText q).toList = '-' :: (Numeral.fractionText (-q)).toList := by
    rw [Numeral.toList_fractionText, Numeral.toList_fractionText, Rat.den_neg_eq_den,
      Rat.num_neg_eq_neg_num, toList_integerText_of_neg (Rat.num_neg.mpr h)]
    by_cases hq : q.den = 1
    · rw [if_pos hq, if_pos hq]
    · rw [if_neg hq, if_neg hq, List.cons_append]
  have hneg := (denotes_fractionText (neg_nonneg.mpr h.le)).negative
  rwa [neg_neg, ← htext] at hneg

end Formula

/-! ## Operands -/

namespace Written

open Formula (Denotes)

variable (q : ℚ)

theorem toList_operand_of_nonneg (h : 0 ≤ q) :
    (operand .fraction q).toList = (Numeral.fractionText q).toList := by
  rw [operand, if_neg (not_lt.mpr h)]
  rfl

theorem denotes_operand_of_neg (h : q < 0) : Denotes .power (operand .fraction q).toList q := by
  have htext : (operand .fraction q).toList =
      '(' :: ((Numeral.fractionText q).toList ++ [')']) := by
    rw [operand, if_pos h]
    simp [DisplayMode.format]
  rw [htext]
  exact (Formula.denotes_neg_fractionText h).brackets.factor

theorem denotes_operand : Denotes .product (operand .fraction q).toList q := by
  rcases lt_or_ge q 0 with hq | hq
  · exact (denotes_operand_of_neg q hq).single
  · rw [toList_operand_of_nonneg q hq]
    exact Formula.denotes_fractionText hq

theorem denotes_over_operand {cs : List Char} {x : ℚ} (h : Denotes .product cs x) (hq : 0 < q) :
    Denotes .product (cs ++ '/' :: ' ' :: (operand .fraction q).toList)
      (x / (q.num * q.den)) := by
  have hnum : (q.num : ℚ) ≠ 0 := Int.cast_ne_zero.mpr (Rat.num_ne_zero.mpr hq.ne')
  have hover := h.quotient (Formula.denotes_integerText (Rat.num_nonneg.mpr hq.le)).blankBefore hnum
  rw [toList_operand_of_nonneg q hq.le, Numeral.toList_fractionText]
  by_cases hden : q.den = 1
  · rw [if_pos hden, hden, Nat.cast_one, mul_one]
    exact hover
  · have hover' := hover.quotient (Formula.denotes_toDigits q.den) (Nat.cast_ne_zero.mpr q.den_nz)
    rw [if_neg hden, ← div_div]
    simpa using hover'

theorem toList_binary (display : DisplayMode) (symbol : String) (a b : ℚ) :
    (binary display symbol a b).toList =
      (operand display a).toList ++ [' '] ++ symbol.toList ++ ' ' :: (operand display b).toList := by
  simp [binary]

theorem denotes_product (a b : ℚ) : Denotes .product (product .fraction a b).toList (a * b) := by
  have hmul := (denotes_operand a).mul (denotes_operand b)
  simpa [product] using hmul

theorem denotes_plus (a b : ℚ) : Denotes .sum (binary .fraction "+" a b).toList (a + b) := by
  have hplus := (denotes_operand a).term.blankAfter.plus (denotes_operand b).blankBefore
  simpa [toList_binary] using hplus

theorem denotes_minus (a b : ℚ) : Denotes .sum (binary .fraction "-" a b).toList (a - b) := by
  have hminus := (denotes_operand a).term.blankAfter.minus (denotes_operand b).blankBefore
  simpa [toList_binary] using hminus

theorem denotes_times (a b : ℚ) : Denotes .sum (binary .fraction "*" a b).toList (a * b) := by
  have hmul := ((denotes_operand a).blankAfter.mul (denotes_operand b).blankBefore).term
  simpa [toList_binary] using hmul

end Written

/-! ## Operations on scalars -/

theorem DisplayMode.resolve_eq_fraction {modes : List DisplayMode} (h : decimal ∉ modes) :
    resolve modes = fraction :=
  if_neg h

namespace ScalarArithmetic

open Formula (Denotes)

/-- The divisor is positive and no integer: its own slash divides once more. -/
def Misread (op : Operator) (a b : ℚ) : Prop :=
  op = .scalarDivide ∧ a ≠ 0 ∧ 0 < b ∧ b.den ≠ 1

instance (op : Operator) (a b : ℚ) : Decidable (Misread op a b) :=
  inferInstanceAs (Decidable (_ ∧ _))

/-- What the written form of an operation with a given result denotes. -/
def asRead (op : Operator) (a b result : ℚ) : ℚ :=
  if Misread op a b then a / (b.num * b.den) else result

theorem asRead_of_ne {op : Operator} (h : op ≠ .scalarDivide) (a b result : ℚ) :
    asRead op a b result = result :=
  if_neg fun hmis => h hmis.1

theorem div_num_mul_den_eq_iff {a b : ℚ} (hb : 0 < b) :
    a / (b.num * b.den) = a / b ↔ a = 0 ∨ b.den = 1 := by
  have hnum : (b.num : ℚ) ≠ 0 := Int.cast_ne_zero.mpr (Rat.num_ne_zero.mpr hb.ne')
  have hden : (0 : ℚ) < b.den := Nat.cast_pos.mpr b.den_pos
  have hdiv : a / b = a * b.den / b.num := by
    rw [← div_div_eq_mul_div, Rat.num_div_den]
  have hsq : (b.den * b.den : ℚ) = 1 ↔ b.den = 1 := by
    rw [← pow_two, pow_eq_one_iff_of_nonneg hden.le two_ne_zero, Nat.cast_eq_one]
  rw [hdiv, ← div_div, div_right_comm, div_left_inj' hnum, div_eq_iff hden.ne', mul_assoc,
    eq_comm, mul_right_eq_self₀, hsq, or_comm]

/-- **The written form of a quotient.** -/
theorem denotes_over {a b : ℚ} (hb : b ≠ 0) :
    Denotes .sum (Written.binary .fraction "/" a b).toList
      (asRead .scalarDivide a b (a / b)) := by
  have ha := (Written.denotes_operand a).blankAfter
  have htext : (Written.binary .fraction "/" a b).toList =
      (Written.operand .fraction a).toList ++ [' '] ++
        '/' :: ' ' :: (Written.operand .fraction b).toList := by
    simp [Written.toList_binary]
  rw [htext]
  rcases lt_or_gt_of_ne hb with hneg | hpos
  · rw [asRead, if_neg fun hmis => hneg.not_gt hmis.2.2.1]
    exact (ha.quotient (Written.denotes_operand_of_neg b hneg).blankBefore hb).term
  · have hover := (Written.denotes_over_operand b ha hpos).term
    by_cases hmis : Misread .scalarDivide a b
    · rwa [asRead, if_pos hmis]
    · rw [asRead, if_neg hmis, ← (div_num_mul_den_eq_iff hpos).mpr (by grind [Misread])]
      exact hover

/-- The written form of an operation denotes one number, its result unless it is misread. -/
structure ReadsAs (op : Operator) (a b result : ℚ) : Prop where
  denotes : Denotes .sum (Written.binary .fraction op.symbol a b).toList (asRead op a b result)
  eq_iff : asRead op a b result = result ↔ ¬ Misread op a b

theorem readsAs_of_ne {op : Operator} (h : op ≠ .scalarDivide) {a b result : ℚ}
    (hd : Denotes .sum (Written.binary .fraction op.symbol a b).toList result) :
    ReadsAs op a b result where
  denotes := by rwa [asRead_of_ne h]
  eq_iff := iff_of_true (asRead_of_ne h a b result) fun hmis => h hmis.1

theorem readsAs_divide {a b : ℚ} (hb : b ≠ 0) : ReadsAs .scalarDivide a b (a / b) where
  denotes := denotes_over hb
  eq_iff := by
    rw [asRead]
    by_cases hmis : Misread .scalarDivide a b
    · rw [if_pos hmis, div_num_mul_den_eq_iff hmis.2.2.1]
      simp [hmis, hmis.2.1, hmis.2.2.2]
    · simp [hmis]

/-- **The written form of every operation that is solved.** -/
theorem exists_readsAs {op : Operator} {solve : Scalar → Scalar → Except MethodFault Solution}
    (bound : op.method? = some (.scalars solve)) {a b : Scalar} {s : Solution}
    (solved : solve a b = .ok s) :
    ∃ result, s = solution op a b result ∧ ReadsAs op a.value b.value result := by
  cases op <;> try cases bound
  case scalarPlus =>
    cases solved
    exact ⟨_, rfl, readsAs_of_ne (by decide) (Written.denotes_plus a.value b.value)⟩
  case scalarMinus =>
    cases solved
    exact ⟨_, rfl, readsAs_of_ne (by decide) (Written.denotes_minus a.value b.value)⟩
  case scalarMultiply =>
    cases solved
    exact ⟨_, rfl, readsAs_of_ne (by decide) (Written.denotes_times a.value b.value)⟩
  case scalarDivide =>
    rw [divide] at solved
    by_cases hb : b.value = 0
    · rw [if_pos hb] at solved
      cases solved
    · rw [if_neg hb] at solved
      cases solved
      exact ⟨_, rfl, readsAs_divide hb⟩

/-- **What the first step of an operation on two scalars denotes.** Outside decimal mode it is a
formula for the answer, unless it is misread; then it denotes another number. -/
theorem written_denotes {op : Operator} {solve : Scalar → Scalar → Except MethodFault Solution}
    (bound : op.method? = some (.scalars solve)) {a b : Scalar} (ha : a.display ≠ .decimal)
    (hb : b.display ≠ .decimal) {s : Solution} (solved : solve a b = .ok s) :
    ∃ answer text, s.answer = .scalar answer ∧
      s.steps.head? = some (.plain (.scalar ⟨answer.value, .custom text⟩)) ∧
      (∀ y, Denotes .sum text.toList y ↔ y = asRead op a.value b.value answer.value) ∧
      (asRead op a.value b.value answer.value = answer.value ↔ ¬ Misread op a.value b.value) := by
  have hmode : DisplayMode.resolve [a.display, b.display] = .fraction :=
    DisplayMode.resolve_eq_fraction (by simp [ha.symm, hb.symm])
  obtain ⟨result, rfl, hreads⟩ := exists_readsAs bound solved
  refine ⟨⟨result, .fraction⟩, _, ?_, ?_, hreads.denotes.iff_eq, hreads.eq_iff⟩
  · rw [solution, hmode]
    rfl
  · rw [solution, hmode]
    rfl

/-- Minus two, subtracted from four, stands in brackets. -/
theorem written_denotes_of_negatives :
    let a : Scalar := ⟨4, .fraction⟩
    let b : Scalar := ⟨-2, .fraction⟩
    Operator.method? .scalarMinus = some (.scalars minus) ∧ a.display ≠ .decimal ∧
      b.display ≠ .decimal ∧ minus a b = .ok (solution .scalarMinus a b 6) ∧
      ∀ y, Denotes .sum "4 - (-2)".toList y ↔ y = 6 := by
  intro a b
  have bound : Operator.method? .scalarMinus = some (.scalars minus) := rfl
  have ha : a.display ≠ .decimal := by decide
  have hb : b.display ≠ .decimal := by decide
  have solved : minus a b = .ok (solution .scalarMinus a b 6) := by decide +kernel
  obtain ⟨answer, text, hanswer, hstep, hdenotes, -⟩ := written_denotes bound ha hb solved
  cases hanswer
  have htext : "4 - (-2)" = text := by
    have hhead : (solution .scalarMinus a b 6).steps.head? =
        some (.plain (.scalar ⟨6, .custom "4 - (-2)"⟩)) := by decide +kernel
    rw [hhead] at hstep
    cases hstep
    rfl
  rw [← htext, asRead_of_ne (by decide)] at hdenotes
  exact ⟨bound, ha, hb, solved, hdenotes⟩

/-- One divided by a half is two, but what is written denotes a half. -/
theorem quotient_by_half_misread :
    let a : Scalar := ⟨1, .fraction⟩
    let b : Scalar := ⟨1 / 2, .fraction⟩
    ∃ s, divide a b = .ok s ∧ s.answer = .scalar ⟨2, .fraction⟩ ∧
      s.steps.head? = some (.plain (.scalar ⟨2, .custom "1 / 1/2"⟩)) ∧
      Denotes .sum "1 / 1/2".toList (1 / 2) ∧ ¬ Denotes .sum "1 / 1/2".toList 2 := by
  intro a b
  have hone : Denotes .power "1".toList 1 := Formula.denotes_toDigits 1
  have htwo : Denotes .power "2".toList 2 := Formula.denotes_toDigits 2
  have hhalf : Denotes .sum "1 / 1/2".toList (1 / 1 / 2) :=
    ((hone.single.blankAfter.quotient hone.blankBefore one_ne_zero).quotient htwo two_ne_zero).term
  rw [div_one] at hhalf
  refine ⟨solution .scalarDivide a b 2, by decide +kernel, by decide, by decide +kernel, hhalf,
    fun h => ?_⟩
  have := h.unique hhalf
  norm_num at this

end ScalarArithmetic
end WorkedAlgebra
