import WorkedAlgebra.Proofs.Expr.Build

/-!
# What an expression keeps of its tokens

The second pass may be given any token list, also one that the checks on neighbours refuse. It drops
brackets and nothing else (**`keeps_of_build`**).
-/

namespace WorkedAlgebra

open Window

def unbracketed (w : List Token) : List Token :=
  w.filter fun t => t.isValue || t.isOperator

theorem unbracketed_append (v w : List Token) :
    unbracketed (v ++ w) = unbracketed v ++ unbracketed w :=
  List.filter_append v w

theorem unbracketed_cons_operator (op : Operator) (w : List Token) :
    unbracketed (.operator op :: w) = .operator op :: unbracketed w := rfl

theorem unbracketed_enclose (w : List Token) : unbracketed (enclose w) = unbracketed w := by
  show unbracketed (w ++ [.bracket .closing]) = unbracketed w
  rw [unbracketed_append]
  exact List.append_nil _

namespace Expr

/-- The values and operators of an expression, an operator between its operands or before one. -/
def inorder : Expr → List Token
  | value v => [.value v]
  | unary op operand => .operator op :: operand.inorder
  | binary op first second => first.inorder ++ .operator op :: second.inorder

/-- An operator of the expression has a first operand exactly if it takes two. -/
def RespectsArity : Expr → Prop
  | value _ => True
  | unary op operand => op.isUnary = true ∧ operand.RespectsArity
  | binary op first second => op.isBinary = true ∧ first.RespectsArity ∧ second.RespectsArity

end Expr

/-- What is read from a window **keeps** its values and operators, each with its operands. -/
structure Keeps (result : Option Expr) (w : List Token) : Prop where
  inorder : result.elim [] Expr.inorder = unbracketed w
  respectsArity : ∀ e ∈ result, e.RespectsArity

namespace Keeps

variable {result first second : Option Expr} {l r w : List Token} {op : Operator} {e : Expr}

theorem nil : Keeps none [] := ⟨rfl, by simp⟩

theorem value (v : Value) : Keeps (some (.value v)) [.value v] :=
  ⟨rfl, by simp [Expr.RespectsArity]⟩

theorem enclose (h : Keeps result w) : Keeps result (enclose w) :=
  ⟨h.inorder.trans (unbracketed_enclose w).symm, h.respectsArity⟩

theorem apply {position : Nat} (hl : Keeps first l) (hr : Keeps second r)
    (h : Expr.apply op position first second = .ok e) :
    Keeps (some e) (l ++ .operator op :: r) := by
  have hw : unbracketed (l ++ .operator op :: r) =
      first.elim [] Expr.inorder ++ .operator op :: second.elim [] Expr.inorder := by
    rw [unbracketed_append, unbracketed_cons_operator, hl.inorder, hr.inorder]
  have ha := hl.respectsArity
  have hb := hr.respectsArity
  rcases Expr.apply_eq_ok_iff.mp h with ⟨b, rfl, rfl, rank, rfl⟩ | ⟨a, b, rfl, rfl, below, rfl⟩
  · refine ⟨hw.symm, ?_⟩
    rintro _ ⟨⟩
    exact ⟨op.isUnary_iff.mpr rank, hb b rfl⟩
  · refine ⟨hw.symm, ?_⟩
    rintro _ ⟨⟩
    exact ⟨op.isBinary_iff.mpr below, ha a rfl, hb b rfl⟩

end Keeps

theorem keeps_of_build {start : Nat} {w : List Token} {result : Option Expr}
    (h : (Expr.build start w).outcome = .ok result) : Keeps result w := by
  induction start, w using Expr.window_induction generalizing result with
  | enclosed start inner hu ih =>
    rw [Expr.outcome_build_of_unwrap? hu] at h
    exact (ih h).enclose
  | nil start =>
    rw [Expr.outcome_build_nil] at h
    cases h
    exact .nil
  | singleton start t =>
    rw [Expr.outcome_build_singleton] at h
    obtain ⟨e, he, rfl⟩ := Traced.map_eq_ok_iff.mp h
    obtain ⟨v, rfl, rfl⟩ := Expr.ofToken_eq_ok_iff.mp he
    exact .value v
  | split start l op r hu hr hl ih₁ ih₂ =>
    obtain ⟨first, second, e, hf, hs, he, rfl⟩ :=
      (Expr.outcome_build_split_eq_ok_iff hu hr hl).mp h
    exact (ih₁ hf).apply (ih₂ hs) he
  | groups start w hu hr hl _ =>
    rw [Expr.outcome_build_groups hu hr hl] at h
    cases h

/-- **What the second pass reads from any token list keeps its values and operators, in their
order.** Nothing is read exactly from a pile of empty brackets. -/
theorem buildAll_keepsTokens (tokens : List Token) :
    (∀ e, (Expr.buildAll tokens).outcome = .ok (some e) →
      e.inorder = tokens.filter (fun t => t.isValue || t.isOperator) ∧ e.RespectsArity) ∧
    ((Expr.buildAll tokens).outcome = .ok none ↔
      ∃ n, tokens =
        List.replicate n (.bracket .opening) ++ List.replicate n (.bracket .closing)) := by
  refine ⟨fun e he => ?_, Expr.outcome_build_eq_none_iff⟩
  have h := keeps_of_build he
  exact ⟨h.inorder, h.respectsArity e rfl⟩

/-- What is read from `() rank (2 + 3)` keeps its tokens, without the empty brackets; from `(())`
nothing is read. -/
theorem buildAll_keepsTokens_of_vanished :
    let n (i : Int) : Value := .scalar (.ofInt i)
    let tokens : List Token := enclose [] ++ .operator .rank ::
      enclose [.value (n 2), .operator .scalarPlus, .value (n 3)]
    let e : Expr := .unary .rank (.binary .scalarPlus (.value (n 2)) (.value (n 3)))
    (Expr.buildAll tokens).outcome = .ok (some e) ∧
      e.inorder = tokens.filter (fun t => t.isValue || t.isOperator) ∧ e.RespectsArity ∧
      (Expr.buildAll (enclose (enclose []))).outcome = .ok none := by
  intro n tokens e
  have vanished : (Expr.build 0 (enclose [])).outcome = .ok none := Expr.outcome_build_replicate 0 1
  have sum : (Expr.build 4 [.value (n 2), .operator .scalarPlus, .value (n 3)]).outcome =
      .ok (some (.binary .scalarPlus (.value (n 2)) (.value (n 3)))) :=
    (Expr.outcome_build_split_eq_ok_iff (l := [_]) rfl rfl (by decide)).mpr
      ⟨_, _, _, Expr.outcome_build_singleton 4 _, Expr.outcome_build_singleton 6 _, rfl, rfl⟩
  have hb : (Expr.buildAll tokens).outcome = .ok (some e) :=
    (Expr.outcome_build_split_eq_ok_iff (l := enclose []) rfl rfl (by decide)).mpr
      ⟨_, _, _, vanished, (Expr.outcome_build_of_unwrap? rfl 3).trans sum, rfl, rfl⟩
  exact ⟨hb, ((buildAll_keepsTokens tokens).1 e hb).1, ((buildAll_keepsTokens tokens).1 e hb).2,
    (buildAll_keepsTokens _).2.mpr ⟨2, rfl⟩⟩

end WorkedAlgebra
