import WorkedAlgebra.Expr.Basic
import WorkedAlgebra.Proofs.Expr.Checks
import WorkedAlgebra.Proofs.Expr.Root

/-!
# The grammar of expressions

* **`Derives`**: the stratified grammar of the operator table, one level for each rank; a derivation
  carries the operator tree with the brackets erased.
* **`Derives.isChain_fit`**, `Derives.localFault?_eq_none`: a derivable list passes the checks on
  neighbours.
-/

namespace WorkedAlgebra

open Window

/-- **The grammar of expressions**, one level for each rank; values and bracketed expressions stand
at level 5. Equal ranks group to the left. -/
inductive Derives : Nat → List Token → Expr → Prop
  /-- A value stands for itself. -/
  | value (v : Value) : Derives 5 [.value v] (.value v)
  /-- Brackets around an expression are erased. -/
  | group {w : List Token} {e : Expr} (inside : Derives 1 w e) : Derives 5 (enclose w) e
  /-- An operator of rank 4 before its operand. -/
  | unary {op : Operator} {w : List Token} {e : Expr} (rank : op.strength = 4)
      (operand : Derives 4 w e) : Derives 4 (.operator op :: w) (.unary op e)
  /-- An operator of a rank below 4 between its operands. -/
  | binary {k : Nat} {op : Operator} {l r : List Token} {a b : Expr} (rank : op.strength = k)
      (below : k < 4) (first : Derives k l a) (second : Derives (k + 1) r b) :
      Derives k (l ++ .operator op :: r) (.binary op a b)
  /-- What is derivable at a level is derivable at the level below. -/
  | lift {k : Nat} {w : List Token} {e : Expr} (bounds : 1 ≤ k ∧ k ≤ 4)
      (above : Derives (k + 1) w e) : Derives k w e

namespace Derives

variable {j k : Nat} {w : List Token} {e : Expr}

theorem le_five (h : Derives k w e) : k ≤ 5 := by
  induction h <;> omega

theorem ne_nil (h : Derives k w e) : w ≠ [] := by
  induction h with
  | value v => simp
  | group => simp [enclose]
  | unary => simp
  | binary => simp
  | lift _ _ ih => exact ih

theorem lower (h : Derives j w e) (hk : 1 ≤ k) (hkj : k ≤ j) : Derives k w e := by
  have hj := h.le_five
  obtain ⟨n, rfl⟩ := Nat.exists_eq_add_of_le hkj
  induction n with
  | zero => exact h
  | succ n ih =>
    exact ih (h.lift ⟨by omega, by omega⟩) (by omega) (by omega)

theorem binary_values (op : Operator) (rank : op.strength = k) (below : k < 4) (u v : Value) :
    Derives k [.value u, .operator op, .value v] (.binary op (.value u) (.value v)) := by
  have hk : 1 ≤ k := rank ▸ op.strength_pos
  have first : Derives k [.value u] (.value u) := (value u).lower hk (by omega)
  have second : Derives (k + 1) [.value v] (.value v) := (value v).lower (by omega) (by omega)
  exact binary rank below first second

/-- **The brackets of a derivable list nest properly.** -/
theorem nested (h : Derives k w e) : Nested w := by
  induction h with
  | value v => exact Nested.nil.atom rfl
  | group _ ih => exact ih.enclose
  | unary _ _ ih => exact ih.atom rfl
  | binary _ _ _ _ ih₁ ih₂ => exact ih₁.append (ih₂.atom rfl)
  | lift _ _ ih => exact ih

/-! ## Levels and strengths -/

theorem le_strength (h : Derives k w e) :
    ∀ i, ∀ p ∈ outerFrom i 0 w, k ≤ p.2.strength := by
  induction h with
  | value v => simp [outerFrom]
  | group inside _ =>
    intro i p hp
    rw [inside.nested.outerFrom_enclose] at hp
    exact absurd hp (by simp)
  | unary rank _ ih =>
    intro i p hp
    rw [outerFrom_operator] at hp
    rcases List.mem_cons.mp hp with rfl | hp
    · exact Nat.le_of_eq rank.symm
    · exact ih _ p hp
  | binary rank below first _ ih₁ ih₂ =>
    intro i p hp
    rw [first.nested.outerFrom_append_operator] at hp
    rcases List.mem_append.mp hp with hp | hp
    · exact ih₁ _ p hp
    rcases List.mem_cons.mp hp with rfl | hp
    · exact Nat.le_of_eq rank.symm
    · exact Nat.le_of_succ_le (ih₂ _ p hp)
  | lift _ _ ih => exact fun i p hp => Nat.le_of_succ_le (ih i p hp)

/-- **What is derivable at some level is derivable at every level that no operator outside brackets
is below.** -/
theorem raise (h : Derives j w e) (hk : 1 ≤ k) (hk₅ : k ≤ 5) (i : Nat)
    (hw : ∀ p ∈ outerFrom i 0 w, k ≤ p.2.strength) : Derives k w e := by
  induction h with
  | value v => exact (Derives.value v).lower hk hk₅
  | group inside _ => exact inside.group.lower hk hk₅
  | @unary op w e rank operand _ =>
    have hop : k ≤ op.strength := hw (i, op) (by rw [outerFrom_operator]; exact List.mem_cons_self)
    exact (operand.unary rank).lower hk (by omega)
  | @binary j op l r a b rank below first second _ _ =>
    have hop : k ≤ op.strength := hw (i + l.length, op) (by
      rw [first.nested.outerFrom_append_operator]
      exact List.mem_append_right _ List.mem_cons_self)
    exact (first.binary rank below second).lower hk (by omega)
  | lift _ _ ih => exact ih hw

end Derives

/-! ## Neighbours -/

namespace Derives

variable {k : Nat} {w : List Token} {e : Expr}

theorem head_of_mem (h : Derives k w e) :
    ∀ t ∈ w.head?, t.isBinary = false ∧ t.isClosing = false := by
  induction h with
  | value v => rintro t ⟨⟩; exact ⟨rfl, rfl⟩
  | group => rintro t ⟨⟩; exact ⟨rfl, rfl⟩
  | @unary op _ _ rank _ _ =>
    rintro t ⟨⟩
    have hb : op.isBinary = false := by
      rw [Bool.eq_false_iff, ne_eq, op.isBinary_iff]
      omega
    exact ⟨hb, rfl⟩
  | @binary _ _ l r _ _ _ _ first _ ih _ =>
    rw [List.head?_append_of_ne_nil _ first.ne_nil]
    exact ih
  | lift _ _ ih => exact ih

theorem last_of_mem (h : Derives k w e) :
    ∀ t ∈ w.getLast?, t.isOperator = false ∧ t.isOpening = false := by
  induction h with
  | value v => rintro t ⟨⟩; exact ⟨rfl, rfl⟩
  | group =>
    rw [enclose, ← List.cons_append, List.getLast?_concat]
    rintro t ⟨⟩
    exact ⟨rfl, rfl⟩
  | unary _ operand ih =>
    rw [List.getLast?_cons_of_ne_nil operand.ne_nil]
    exact ih
  | binary _ _ _ second _ ih =>
    rw [List.getLast?_append_of_ne_nil _ (by simp), List.getLast?_cons_of_ne_nil second.ne_nil]
    exact ih
  | lift _ _ ih => exact ih

theorem isChain_fit (h : Derives k w e) : w.IsChain Fit := by
  induction h with
  | value v => exact .singleton _
  | group inside ih =>
    have hc := ih.append (.singleton (.bracket .closing)) (by
      rintro t ht _ ⟨⟩
      have := inside.last_of_mem t ht
      exact fit_closing_right this.1 this.2)
    refine hc.cons fun t ht => fit_opening_left ?_
    rw [List.head?_append_of_ne_nil _ inside.ne_nil] at ht
    exact (inside.head_of_mem t ht).2
  | unary _ operand ih =>
    refine ih.cons fun t ht => ?_
    have := operand.head_of_mem t ht
    exact fit_operator_left this.1 this.2
  | binary _ _ first second ih₁ ih₂ =>
    refine ih₁.append (ih₂.cons fun t ht => ?_) ?_
    · have := second.head_of_mem t ht
      exact fit_operator_left this.1 this.2
    · rintro t ht _ ⟨⟩
      exact fit_operator_right (first.last_of_mem t ht).1
  | lift _ _ ih => exact ih

theorem localFault?_eq_none (h : Derives k w e) : localFault? w = none := by
  obtain ⟨first, rest, rfl⟩ := List.exists_cons_of_ne_nil h.ne_nil
  have hf := h.head_of_mem first rfl
  have hl := h.last_of_mem ((first :: rest).getLast (by simp)) (List.getLast_mem_getLast? _)
  rw [localFault?, h.nested.bracketFault?_eq_none, Option.none_or]
  cases rest with
  | nil =>
    cases first with
    | value v => rfl
    | operator op => exact absurd hl.1 (by simp [Token.isOperator, Token.operator?])
    | bracket b =>
      cases b with
      | opening => exact absurd hl.2 (by simp [Token.isOpening, Token.bracket?])
      | closing => exact absurd hf.2 (by simp [Token.isClosing, Token.bracket?])
  | cons t rest =>
    rw [if_neg (by simp), severalFault?, hf.1, if_neg Bool.false_ne_true,
      neighbourFault?_eq_none_iff.mpr h.isChain_fit, Option.none_or, lastFault?,
      isUnary_eq_false hl.1, if_neg Bool.false_ne_true, isBinary_eq_false hl.1,
      if_neg Bool.false_ne_true]

end Derives
end WorkedAlgebra
