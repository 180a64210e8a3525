import WorkedAlgebra.Proofs.Evaluation.Mirror

/-!
# Display modes of answers

A method looks at the modes of its operands only; over a whole expression this makes the mode of an
answer depend on the values below it (**`WorkTree.Mirrors.display_eq_decimal_iff`**).
-/

namespace WorkedAlgebra

def Expr.values : Expr → List Value
  | value v => [v]
  | unary _ operand => operand.values
  | binary _ first second => first.values ++ second.values

/-- The mode that the values of an expression ask for: decimal if one of them is, else fraction. -/
def Expr.mode (e : Expr) : DisplayMode :=
  if ∃ v ∈ e.values, v.display = .decimal then .decimal else .fraction

namespace DisplayMode

theorem resolve_ne_custom (modes : List DisplayMode) (text : String) :
    resolve modes ≠ custom text := by
  unfold resolve
  split_ifs <;> nofun

theorem eq_mode {e : Expr} {modes : List DisplayMode}
    (h : resolve modes = decimal ↔ ∃ v ∈ e.values, v.display = decimal) :
    resolve modes = e.mode := by
  unfold Expr.mode
  split_ifs with hd
  · exact h.mpr hd
  · rw [← h, resolve_eq_decimal_iff] at hd
    rw [resolve, if_neg hd]

end DisplayMode

theorem Method.display_of_apply {op : Operator} {method : Method} {first : Option Value}
    {second : Value} {s : Solution} (bound : op.method? = some method)
    (h : (method.apply op first second).outcome = .ok s) :
    s.answer.display = .resolve ((first.toList ++ [second]).map Value.display) := by
  obtain ⟨answer, steps, rfl, -, hd, -⟩ := Method.solves_of_apply bound h s rfl
  exact hd

namespace WorkTree

/-- `P` holds **throughout** a work tree: of every solution and of the expression it stands for. -/
inductive Throughout (P : Solution → Expr → Prop) : WorkTree → Expr → Prop
  | value (v : Value) : Throughout P .leaf (.value v)
  | unary {op : Operator} {operand : Expr} {s : Solution} {second : WorkTree}
      (child : Throughout P second operand) (here : P s (.unary op operand)) :
      Throughout P (.node s .leaf second) (.unary op operand)
  | binary {op : Operator} {left right : Expr} {s : Solution} {first second : WorkTree}
      (child₁ : Throughout P first left) (child₂ : Throughout P second right)
      (here : P s (.binary op left right)) :
      Throughout P (.node s first second) (.binary op left right)

namespace Mirrors

variable {t : WorkTree} {e : Expr}

theorem throughout {P : Solution → Expr → Prop}
    (hP : ∀ {s first second x}, Mirrors (.node s first second) x → P s x) (h : t.Mirrors e) :
    t.Throughout P e := by
  induction h with
  | value v => exact .value v
  | unary bound child unworked comes solved operator inputs ih =>
    exact .unary ih (hP (.unary bound child unworked comes solved operator inputs))
  | binary bound child₁ worked₁ comes₁ child₂ worked₂ comes₂ solved operator inputs ih₁ ih₂ =>
    exact .binary ih₁ ih₂ (hP
      (.binary bound child₁ worked₁ comes₁ child₂ worked₂ comes₂ solved operator inputs))

theorem display_eq_decimal_iff (h : t.Mirrors e) {v : Value} (hv : t.value? e = some v) :
    v.display = .decimal ↔ ∃ u ∈ e.values, u.display = .decimal := by
  induction h generalizing v with
  | value u =>
    obtain rfl : u = v := Option.some.inj hv
    simp [Expr.values]
  | @unary op method operand second b s bound _ _ comes solved _ _ ih =>
    obtain rfl : s.answer = v := Option.some.inj hv
    rw [Method.display_of_apply bound solved, DisplayMode.resolve_eq_decimal_iff, Expr.values,
      ← ih comes]
    simp [eq_comm]
  | @binary op method left right first second a b s bound _ _ comes₁ _ _ comes₂ solved _ _ ih₁
      ih₂ =>
    obtain rfl : s.answer = v := Option.some.inj hv
    have hvalues : (∃ u ∈ (Expr.binary op left right).values, u.display = .decimal) ↔
        a.display = .decimal ∨ b.display = .decimal := by
      rw [ih₁ comes₁, ih₂ comes₂]
      simp [Expr.values, or_and_right, exists_or]
    rw [Method.display_of_apply bound solved, DisplayMode.resolve_eq_decimal_iff, hvalues]
    simp [eq_comm]

theorem display_answer {s : Solution} {first second : WorkTree}
    (h : Mirrors (.node s first second) e) : s.answer.display = e.mode := by
  have hdecimal := h.display_eq_decimal_iff rfl
  cases h with
  | unary bound _ _ _ solved =>
    rw [Method.display_of_apply bound solved] at hdecimal ⊢
    exact DisplayMode.eq_mode hdecimal
  | binary bound _ _ _ _ _ _ solved =>
    rw [Method.display_of_apply bound solved] at hdecimal ⊢
    exact DisplayMode.eq_mode hdecimal

theorem display_ne_custom (h : t.Mirrors e) :
    ∀ s ∈ t.solutions, ∀ text, s.answer.display ≠ .custom text := by
  refine h.forall_solutions fun bound solved text => ?_
  rw [Method.display_of_apply bound solved]
  exact DisplayMode.resolve_ne_custom _ text

end Mirrors
end WorkTree

namespace Expr

/-- **Every answer is in the mode that the values below it ask for**: decimal if one of them is in
decimal mode, else fraction. No answer at all is shown by a fixed text. -/
theorem evaluate_modes {e : Expr} {t : WorkTree} (h : e.evaluate = .ok t) :
    t.Throughout (fun s x => s.answer.display = x.mode) e ∧
      ∀ s ∈ t.solutions, ∀ text, s.answer.display ≠ .custom text := by
  obtain ⟨v, hv⟩ := evaluate_eq_ok_iff.mp h
  have hm := mirrors_of_work hv
  exact ⟨hm.throughout fun hx => hx.display_answer, hm.display_ne_custom⟩

/-- In `(2 + 3) * 0.5` with `2` shown as `two`, the sum is a fraction and the product decimal. -/
theorem evaluate_modes_of_product :
    let sum : Expr :=
      .binary .scalarPlus (.value (.scalar ⟨2, .custom "two"⟩)) (.value (.scalar (.ofInt 3)))
    let product : Expr := .binary .scalarMultiply sum (.value (.scalar ⟨1 / 2, .decimal⟩))
    ∃ t, product.evaluate = .ok t ∧ t.Throughout (fun s x => s.answer.display = x.mode) product ∧
      t.solutions.map (fun s => s.answer.display) = [.fraction, .decimal] ∧
      sum.mode = .fraction ∧ product.mode = .decimal := by
  intro sum product
  exact ⟨_, rfl, (evaluate_modes (e := product) rfl).1, rfl, rfl, rfl⟩

end Expr
end WorkedAlgebra
