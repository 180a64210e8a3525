import WorkedAlgebra.Evaluation
import WorkedAlgebra.Proofs.Expr.Contents
import WorkedAlgebra.Proofs.Expr.Span

/-!
# Room for nested calls

How many calls are active at one time, in the second pass and when an expression is worked.

* **`Span.buildWithin_eq`**, **`Span.exists_without_room`**: one call for each token, and no fewer.
* **`Expr.workWithin_eq`**: as many operations as an expression is deep.
-/

namespace WorkedAlgebra

open Window

namespace Span

variable {tokens : List Token} {s : Span} {ε ε' : Type}

/-! ## One call -/

theorem inside_of_short (hs : s.length ≤ 1) : inside tokens s = s := by
  rcases inside_eq_or tokens s with h | ⟨h, -⟩
  · exact h
  · omega

/-- **The faults of a call are renamed in its further calls and in what it does itself.** -/
theorem step_mapFault (fault : ParseFault → ε) (rename : ε → ε')
    (f : Span → Traced ε (Option Expr)) :
    (step tokens fault s fun t _ => f t).mapFault rename =
      step tokens (rename ∘ fault) s fun t _ => (f t).mapFault rename := by
  by_cases hi : inside tokens s = s
  · obtain hl | hl | hl : s.length = 0 ∨ s.length = 1 ∨ 1 < s.length := by omega
    · rw [step_of_length_zero hi hl, step_of_length_zero hi hl]
      rfl
    · rw [step_of_length_one hi hl, step_of_length_one hi hl, Traced.mapFault_mapFault]
    · cases hr : root? (s.window tokens) with
      | some q =>
        rw [step_of_root? hi hl hr, step_of_root? hi hl hr]
        simp only [Traced.mapFault_bind, Traced.mapFault_map, Traced.mapFault_mapFault]
        rfl
      | none =>
        rw [step_of_root?_none hi hl hr, step_of_root?_none hi hl hr, Traced.mapFault_bind,
          Traced.mapFault_forM]
        simp only [Traced.mapFault_discard]
        rfl
  · rw [step_of_inside_ne hi, step_of_inside_ne hi, Traced.mapFault_bind]
    rfl

theorem step_of_short (hs : s.length ≤ 1) (fault : ParseFault → ε)
    (f g : Span → Traced ε (Option Expr)) :
    (step tokens fault s fun t _ => f t) = step tokens fault s fun t _ => g t := by
  have hi : inside tokens s = s := inside_of_short hs
  obtain hl | hl : s.length = 0 ∨ s.length = 1 := by omega
  · rw [step_of_length_zero hi hl, step_of_length_zero hi hl]
  · rw [step_of_length_one hi hl, step_of_length_one hi hl]

/-! ## The whole pass -/

theorem buildWithin_eq {room : ℕ} (h : max 1 s.length ≤ room) :
    buildWithin tokens room s = (build tokens s).mapFault some := by
  induction room generalizing s with
  | zero => omega
  | succ room ih =>
    rw [buildWithin, build, step_mapFault]
    by_cases hs : s.length ≤ 1
    · exact step_of_short hs _ _ _
    · -- the further calls are about shorter spans, and there is room left for one at least
      exact congrArg (step tokens some s) (funext fun t => funext fun ht => ih (by omega))

/-! ## Too little room -/

/-- Operators with one operand in a row, and their operand. -/
def chain (k : ℕ) : List Token :=
  List.replicate k (.operator .transpose) ++ [.value (.scalar (.ofInt 1))]

theorem length_chain (k : ℕ) : (chain k).length = k + 1 := by
  simp [chain]

theorem drop_chain {i k : ℕ} (h : i ≤ k) : (chain k).drop i = chain (k - i) := by
  rw [chain, chain, List.drop_append_of_le_length (by simpa using h), List.drop_replicate]

theorem root?_chain (k : ℕ) : root? (chain (k + 1)) = some (0, .transpose) := by
  have hrest (i : ℕ) : rootFrom i 0 (some (0, .transpose)) (chain k) = some (0, .transpose) := by
    induction k generalizing i with
    | zero => rfl
    | succ k ih => exact ih (i + 1)
  rw [root?_eq_rootFrom]
  exact hrest 1

def chained : ℕ → Expr
  | 0 => .value (.scalar (.ofInt 1))
  | k + 1 => .unary .transpose (chained k)

theorem depth_chained (k : ℕ) : (chained k).depth = k := by
  induction k with
  | zero => rfl
  | succ k ih => rw [chained, Expr.depth, ih]

theorem outcome_build_chain (k start : ℕ) :
    (Expr.build start (chain k)).outcome = .ok (some (chained k)) := by
  induction k generalizing start with
  | zero => exact Expr.outcome_build_singleton start _
  | succ k ih =>
    exact (Expr.outcome_build_split_eq_ok_iff (l := []) (r := chain k) rfl (root?_chain k)
      (by simp [length_chain])).mpr
        ⟨none, some (chained k), _, Expr.outcome_build_nil start, ih (start + 1), rfl, rfl⟩

theorem outcome_buildWithin_chain {k i room : ℕ} (hi : i ≤ k) (h : room ≤ k - i) :
    (buildWithin (chain k) room ⟨i, k + 1⟩).outcome = .error none := by
  induction room generalizing i with
  | zero => rfl
  | succ room ih =>
    have hlen : 1 < length ⟨i, k + 1⟩ := by
      simp only [length]
      omega
    have hwindow : window (chain k) ⟨i, k + 1⟩ = chain (k - (i + 1) + 1) := by
      rw [window, slice, ← length_chain k, List.take_length, drop_chain hi]
      congr 1
      omega
    have hroot := hwindow ▸ root?_chain (k - (i + 1))
    have htoken : (chain k)[i]? = some (.operator .transpose) := by
      rw [chain, List.getElem?_append_left (by simp; omega),
        List.getElem?_replicate_of_lt (by omega)]
    have hinside : inside (chain k) ⟨i, k + 1⟩ = ⟨i, k + 1⟩ := by
      refine if_neg ?_
      rintro ⟨-, hopening, -⟩
      rw [htoken] at hopening
      cases hopening
    have hsecond : (buildWithin (chain k) room ⟨i + 1, k + 1⟩).outcome = .error none :=
      ih (by omega) (by omega)
    rw [buildWithin, step_of_root? hinside hlen hroot, Traced.outcome_bind_of_ok rfl,
      Traced.outcome_bind]
    cases room with
    | zero => rfl
    | succ room =>
      -- nothing stands before the first operator
      have hempty : length ⟨i, i + 0⟩ = 0 := Nat.sub_self i
      have hfirst : buildWithin (chain k) (room + 1) ⟨i, i + 0⟩ = pure none :=
        step_of_length_zero (inside_of_short (by omega)) hempty
      rw [hfirst, Traced.outcome_pure]
      change (_ >>= _ : Traced _ _).outcome = _
      rw [Traced.outcome_bind, Nat.add_zero, hsecond]
      rfl

theorem exists_without_room {n : ℕ} (hn : 0 < n) :
    ∃ (tokens : List Token) (e : Expr), tokens.length = n ∧
      (Expr.buildAll tokens).outcome = .ok (some e) ∧ e.depth = n - 1 ∧
      (buildWithin tokens (n - 1) (whole tokens)).outcome = .error none := by
  obtain ⟨k, rfl⟩ := Nat.exists_eq_succ_of_ne_zero hn.ne'
  refine ⟨chain k, chained k, length_chain k, outcome_build_chain k 0, depth_chained k, ?_⟩
  rw [whole, length_chain]
  exact outcome_buildWithin_chain (Nat.zero_le k) (Nat.le_refl k)

end Span

/-! ## Depth -/

namespace Expr

theorem depth_le_size (e : Expr) : e.depth ≤ e.size := by
  induction e with
  | value v => exact Nat.le_refl 0
  | unary op operand ih => exact Nat.succ_le_succ ih
  | binary op first second ih₁ ih₂ =>
    simp only [depth, size]
    omega

theorem countP_inorder (e : Expr) : e.inorder.countP Token.isOperator = e.size := by
  induction e with
  | value v => rfl
  | unary op operand ih => rw [inorder, List.countP_cons_of_pos rfl, ih, size]
  | binary op first second ih₁ ih₂ =>
    rw [inorder, List.countP_append, ih₁, List.countP_cons_of_pos rfl, ih₂, size, Nat.add_assoc]

theorem workWithin_eq {e : Expr} {room : ℕ} (h : e.depth ≤ room) :
    e.workWithin room = e.work.mapFault some := by
  induction e generalizing room with
  | value v => cases room <;> rfl
  | unary op operand ih =>
    obtain ⟨room, rfl⟩ := Nat.exists_eq_add_of_le' (Nat.one_le_of_lt h)
    rw [workWithin, work, ih (Nat.le_of_succ_le_succ h)]
    simp only [Traced.mapFault_bind]
    rfl
  | binary op first second ih₁ ih₂ =>
    obtain ⟨room, rfl⟩ := Nat.exists_eq_add_of_le' (Nat.one_le_of_lt h)
    have hmax := Nat.max_le.mp (Nat.le_of_succ_le_succ h)
    rw [workWithin, work, ih₁ hmax.1, ih₂ hmax.2]
    simp only [Traced.mapFault_bind]
    rfl

end Expr

theorem Keeps.size_eq {e : Expr} {w : List Token} (h : Keeps (some e) w) :
    e.size = w.countP Token.isOperator := by
  rw [← e.countP_inorder, show e.inorder = unbracketed w from h.inorder, unbracketed,
    List.countP_filter]
  refine List.countP_congr fun t _ => ?_
  cases t <;> simp [Token.isOperator, Token.operator?]

/-- **A token list bounds how deep both recursions nest**: at most one call is active for each
token, and the expression is no deeper than the list has operators. -/
theorem buildAll_nesting (tokens : List Token) :
    Span.buildWithin tokens (max 1 tokens.length) (.whole tokens) =
        (Expr.buildAll tokens).mapFault some ∧
      ∀ e, (Expr.buildAll tokens).outcome = .ok (some e) →
        e.depth ≤ tokens.countP Token.isOperator ∧
          e.workWithin (tokens.countP Token.isOperator) = e.work.mapFault some := by
  constructor
  · rw [← Span.build_whole]
    exact Span.buildWithin_eq (Nat.le_refl _)
  · intro e he
    have hdepth : e.depth ≤ tokens.countP Token.isOperator :=
      (keeps_of_build he).size_eq ▸ e.depth_le_size
    exact ⟨hdepth, Expr.workWithin_eq hdepth⟩

/-- `( 2 + 3 )` is read with room for five calls, and worked with room for one operation. -/
theorem buildAll_nesting_of_sum :
    let n (i : Int) : Value := .scalar (.ofInt i)
    let tokens := enclose [.value (n 2), .operator .scalarPlus, .value (n 3)]
    let e : Expr := .binary .scalarPlus (.value (n 2)) (.value (n 3))
    (Expr.buildAll tokens).outcome = .ok (some e) ∧
      Span.buildWithin tokens 5 (.whole tokens) = (Expr.buildAll tokens).mapFault some ∧
      e.depth ≤ 1 ∧ e.workWithin 1 = e.work.mapFault some := by
  intro n tokens e
  have sum : (Expr.build 1 [.value (n 2), .operator .scalarPlus, .value (n 3)]).outcome =
      .ok (some e) :=
    (Expr.outcome_build_split_eq_ok_iff (l := [_]) rfl rfl (by decide)).mpr
      ⟨_, _, _, Expr.outcome_build_singleton 1 _, Expr.outcome_build_singleton 3 _, rfl, rfl⟩
  have hb : (Expr.buildAll tokens).outcome = .ok (some e) :=
    (Expr.outcome_build_of_unwrap? rfl 0).trans sum
  exact ⟨hb, (buildAll_nesting tokens).1, (buildAll_nesting tokens).2 e hb⟩

end WorkedAlgebra
