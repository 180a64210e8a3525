import WorkedAlgebra.Proofs.Calculation
import WorkedAlgebra.Proofs.Wire.Outcome

/-!
# Outcomes of calculations are read back

The text of an outcome nests as deep as its work tree is high, but a text may open only so many
levels.
-/

namespace WorkedAlgebra

open Json

variable {limits : Limits} {tokens : List Token}

/-! ## Depth -/

theorem Step.IsWritten.depth_toJson {step : Step} (h : step.IsWritten) :
    3 ≤ step.value.toJson.depth := by
  obtain ⟨⟨q, mode⟩ | m, note⟩ := step
  · obtain hk | ⟨text, ht⟩ := h
    · cases hk
    · obtain rfl : mode = .custom text := ht
      exact Nat.le_refl 3
  · have hrows : (Json.ofList (.ofList .text) m.rowTexts).depth < m.toJson.depth := by
      rw [m.toJson_eq]
      exact depth_lt_depth_record "rows" List.mem_cons_self
    have hm : m.toJson.depth < (Value.matrix m).toJson.depth :=
      depth_lt_depth_record "matrix" List.mem_cons_self
    have hpos : 0 < (Json.ofList (.ofList .text) m.rowTexts).depth := Nat.succ_pos _
    change 3 ≤ (Value.matrix m).toJson.depth
    omega

namespace Outcome

theorem mirrors_ofTokens {s : Solution} {first second : WorkTree}
    (h : (ofTokens limits tokens).tree = .node s first second) :
    ∃ e, (WorkTree.node s first second).Mirrors e := by
  unfold ofTokens at h
  cases hx : (calculateTraced limits tokens).outcome with
  | error fault =>
    rw [hx] at h
    cases h
  | ok result =>
    obtain ⟨e, t⟩ := result
    rw [hx] at h
    obtain rfl : t = .node s first second := h
    obtain ⟨-, -, ht⟩ := outcome_calculateTraced_eq_ok_iff.mp hx
    obtain ⟨v, hv⟩ := Expr.evaluate_eq_ok_iff.mp ht
    exact ⟨e, Expr.mirrors_of_work hv⟩

theorem height_lt_depth_toJson (h : (ofTokens limits tokens).tree.isLeaf = false) :
    (ofTokens limits tokens).tree.height + 6 < (ofTokens limits tokens).toJson.depth := by
  refine Nat.lt_of_le_of_lt (WorkTree.height_le_depth_toJson h fun s hs => ?_) (depth_tree_lt _)
  cases ht : (ofTokens limits tokens).tree with
  | leaf =>
    rw [ht] at h
    cases h
  | node s' first second =>
    obtain ⟨e, hm⟩ := mirrors_ofTokens ht
    rw [ht] at hs
    obtain ⟨step, hstep, hw⟩ := hm.isWritten s hs
    have := hw.depth_toJson
    have := Solution.depth_step_lt hstep
    omega

/-! ## Retrieval -/

/-- **An outcome is read back from its text exactly if the text opens no more levels than a text
may**, as it does up to 119 operations high, and no longer from 121 on. -/
theorem retrieved_iff_shallow (limits : Limits) (tokens : List Token) :
    let o := ofTokens limits tokens
    (readText read o.toJson.render = .ok o ↔ o.toJson.depth ≤ nestingLimit) ∧
      (readText read o.toJson.render = .error .malformed ↔ nestingLimit < o.toJson.depth) ∧
      (o.tree.height ≤ 119 → o.toJson.depth ≤ nestingLimit) ∧
      (121 ≤ o.tree.height → nestingLimit < o.toJson.depth) := by
  intro o
  have hread := (o.follows nestingLimit).readText_render
  have hlimit : nestingLimit = 127 := rfl
  refine ⟨?_, ?_, fun hh => ?_, fun hh => ?_⟩
  · rw [hread]
    by_cases hd : o.toJson.depth ≤ nestingLimit <;> simp [hd]
  · rw [hread]
    by_cases hd : o.toJson.depth ≤ nestingLimit <;> simp [hd, Nat.lt_of_not_le]
  · have := o.depth_toJson_le
    omega
  · have hpos : 0 < o.tree.height := by omega
    have : o.tree.height + 6 < o.toJson.depth :=
      height_lt_depth_toJson (WorkTree.isLeaf_of_height_pos hpos)
    omega

end Outcome

/-! ## Long sums -/

/-- The tokens of `1 + 1 + ⋯ + 1`, with so many plus signs. -/
def Token.onesAdded : ℕ → List Token
  | 0 => [.value (.scalar (.ofInt 1))]
  | n + 1 => onesAdded n ++ [.operator .scalarPlus, .value (.scalar (.ofInt 1))]

def Expr.onesAdded : ℕ → Expr
  | 0 => .value (.scalar (.ofInt 1))
  | n + 1 => .binary .scalarPlus (onesAdded n) (.value (.scalar (.ofInt 1)))

theorem derives_onesAdded (n : ℕ) : Derives 1 (Token.onesAdded n) (Expr.onesAdded n) := by
  have hone : Derives 2 [.value (.scalar (.ofInt 1))] (.value (.scalar (.ofInt 1))) :=
    (Derives.value _).lower (by omega) (by omega)
  induction n with
  | zero => exact hone.lower (by omega) (by omega)
  | succ n ih =>
    have hbinary {right : List Token} {y : Expr} (hy : Derives 2 right y) :
        Derives 1 (Token.onesAdded n ++ .operator .scalarPlus :: right)
          (.binary .scalarPlus (Expr.onesAdded n) y) :=
      .binary rfl (by omega) ih hy
    exact hbinary hone

theorem work_onesAdded (n : ℕ) :
    ∃ t s, (Expr.onesAdded n).work.outcome = .ok (t, .scalar s) ∧ t.height = n := by
  induction n with
  | zero => exact ⟨.leaf, _, rfl, rfl⟩
  | succ n ih =>
    obtain ⟨t, s, hw, ht⟩ := ih
    exact ⟨_, _, Expr.work_binary_eq_ok_iff.mpr ⟨_, _, _, _, _, _, rfl, hw, rfl, rfl, rfl, rfl⟩,
      by simp [WorkTree.height, ht]⟩

theorem Outcome.ofTokens_onesAdded (n : ℕ) :
    (ofTokens .unlimited (Token.onesAdded n)).success = true ∧
      (ofTokens .unlimited (Token.onesAdded n)).tree.height = n := by
  obtain ⟨t, s, hw, ht⟩ := work_onesAdded n
  have hx : (calculateTraced .unlimited (Token.onesAdded n)).outcome = .ok (Expr.onesAdded n, t) :=
    outcome_calculateTraced_of_derives nofun (derives_onesAdded n)
      (Expr.evaluate_eq_ok_iff.mpr ⟨_, hw⟩)
  rw [ofTokens, hx]
  exact ⟨rfl, ht⟩

theorem Outcome.readText_onesAdded {n : ℕ} (hn : 121 ≤ n) :
    readText read (ofTokens .unlimited (Token.onesAdded n)).toJson.render = .error .malformed := by
  have hheight := (ofTokens_onesAdded n).2
  have hdepth : (ofTokens .unlimited (Token.onesAdded n)).tree.height + 6 <
      (ofTokens .unlimited (Token.onesAdded n)).toJson.depth :=
    height_lt_depth_toJson (WorkTree.isLeaf_of_height_pos (by omega))
  have hlimit : nestingLimit = 127 := rfl
  have hread := ((ofTokens .unlimited (Token.onesAdded n)).follows nestingLimit).readText_render
  rw [hread, if_neg (by omega)]

/-- **The outcome of a long sum is written but not read back**: `1 + 1 + ⋯ + 1` with 121 plus signs
is calculated, and the text of its outcome is refused. -/
theorem Outcome.long_sum_not_retrieved :
    let o := ofTokens .unlimited (Token.onesAdded 121)
    o.success = true ∧ readText read o.toJson.render = .error .malformed ∧
      ¬ ∀ limits tokens, readText read (ofTokens limits tokens).toJson.render =
        .ok (ofTokens limits tokens) := by
  have hread := readText_onesAdded (Nat.le_refl 121)
  refine ⟨(ofTokens_onesAdded 121).1, hread, fun hall => ?_⟩
  have hok := hall .unlimited (Token.onesAdded 121)
  rw [hread] at hok
  cases hok

end WorkedAlgebra
