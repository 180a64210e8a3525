import WorkedAlgebra.Proofs.Calculation
import WorkedAlgebra.Proofs.Expr.Renaming
import WorkedAlgebra.Proofs.Method.Bare

/-!
# Display modes never influence a calculation

* **`Expr.outcome_work_bare`**, **`calculate_bare`**: without modes, an expression is worked, and a
  token list is calculated, as with them.
-/

namespace WorkedAlgebra

/-! ## Without modes -/

def WorkTree.bare : WorkTree → WorkTree
  | leaf => leaf
  | node s first second => node s.bare first.bare second.bare

def Renaming.bare : Renaming :=
  .ofValues Value.bare

theorem Renaming.fault_bare (f : ParseFault) : bare.fault f = f := by
  cases f with
  | missingOperand position op => cases op <;> rfl
  | missingOperands position op => cases op <;> rfl
  | _ => rfl

theorem map_bind_congr {ε α β γ δ : Type} {x x' : Except ε α} {k k' : α → Except ε β} {g : α → γ}
    {h : β → δ} (hx : x.map g = x'.map g)
    (hk : ∀ a a', x = .ok a → g a = g a' → (k a).map h = (k' a').map h) :
    (x >>= k).map h = (x' >>= k').map h := by
  rcases x with e | a <;> rcases x' with e' | a'
  · exact congrArg Except.error (Except.error.inj hx)
  · cases hx
  · cases hx
  · exact hk a a' rfl (Except.ok.inj hx)

namespace Expr

theorem map_bare_worked {s s' : Solution} {first first' second second' : WorkTree}
    (hs : s.bare = s'.bare) (h₁ : first.bare = first'.bare) (h₂ : second.bare = second'.bare) :
    (Except.ok (.node s first second, s.answer) : Except EvalFault (WorkTree × Value)).map
        (Prod.map WorkTree.bare Value.bare) =
      (Except.ok (.node s' first' second', s'.answer)).map
        (Prod.map WorkTree.bare Value.bare) := by
  have ha : s.answer.bare = s'.answer.bare := congrArg Solution.answer hs
  simp only [Except.map, Prod.map_apply, WorkTree.bare, hs, h₁, h₂, ha]

/-- **Without modes, an expression is worked as with them.** -/
theorem outcome_work_bare (e : Expr) :
    (Renaming.bare.expr e).work.outcome.map (Prod.map WorkTree.bare Value.bare) =
      e.work.outcome.map (Prod.map WorkTree.bare Value.bare) := by
  induction e with
  | value v => cases v <;> rfl
  | unary op operand ih =>
    rw [Renaming.expr, outcome_work_unary, outcome_work_unary]
    -- both runs take the same method, then operands that are the same without modes
    refine map_bind_congr (g := id) rfl fun method _ hm heq => ?_
    cases heq
    have hob := Operator.oblivious (Operator.method_eq_ok_iff.mp hm)
    refine map_bind_congr ih fun p q _ hpq => ?_
    obtain ⟨ht, hb⟩ := Prod.mk.inj hpq
    exact map_bind_congr (hob.apply_congr op rfl hb) fun s s' _ hs => map_bare_worked hs rfl ht
  | binary op left right ih₁ ih₂ =>
    rw [Renaming.expr, outcome_work_binary, outcome_work_binary]
    refine map_bind_congr (g := id) rfl fun method _ hm heq => ?_
    cases heq
    have hob := Operator.oblivious (Operator.method_eq_ok_iff.mp hm)
    refine map_bind_congr ih₁ fun p p' _ hp => map_bind_congr ih₂ fun q q' _ hq => ?_
    obtain ⟨ht₁, ha⟩ := Prod.mk.inj hp
    obtain ⟨ht₂, hb⟩ := Prod.mk.inj hq
    exact map_bind_congr (hob.apply_congr op (congrArg some ha) hb) fun s s' _ hs =>
      map_bare_worked hs ht₁ ht₂

theorem evaluate_bare (e : Expr) :
    (Renaming.bare.expr e).evaluate.map WorkTree.bare = e.evaluate.map WorkTree.bare := by
  have hfst (x : Except EvalFault (WorkTree × Value)) : (Prod.fst <$> x).map WorkTree.bare =
      (x.map (Prod.map WorkTree.bare Value.bare)).map Prod.fst := by
    cases x <;> rfl
  unfold evaluate evaluateTraced
  rw [Traced.outcome_map, Traced.outcome_map, hfst, hfst, outcome_work_bare]

end Expr

theorem Limits.check_map (limits : Limits) (tokens : List Token) (f : Token → Token) :
    limits.check (tokens.map f) = limits.check tokens := by
  simp only [check, List.length_map]

theorem calculate_bare (limits : Limits) (tokens : List Token) :
    (calculate limits (tokens.map Renaming.bare.token)).map WorkTree.bare =
      (calculate limits tokens).map WorkTree.bare := by
  have hworked (e : Expr) (x : Except EvalFault WorkTree) :
      ((x.mapError Fault.unworkable >>= fun tree => pure (e, tree)).map Prod.snd).map
        WorkTree.bare = (x.map WorkTree.bare).mapError .unworkable := by
    cases x <;> rfl
  unfold calculate
  rw [outcome_calculateTraced, outcome_calculateTraced, Limits.check_map, Renaming.parse_map]
  cases limits.check tokens with
  | error fault => rfl
  | ok =>
    cases Expr.parse tokens with
    | error f => exact congrArg (Except.error ∘ Fault.malformed) (Renaming.fault_bare f)
    | ok e =>
      have he := congrArg (Except.mapError Fault.unworkable) e.evaluate_bare
      rw [← hworked (Renaming.bare.expr e), ← hworked e] at he
      exact he

/-! ## The same numbers -/

/-- Two values have the **same numbers**: they differ in their modes only. -/
inductive Value.SameNumbers : Value → Value → Prop
  | scalar (q : ℚ) (d d' : DisplayMode) : SameNumbers (.scalar ⟨q, d⟩) (.scalar ⟨q, d'⟩)
  | matrix {r c : ℕ} (g : Grid r c) (d d' : DisplayMode) (hr : 0 < r) (hc : 0 < c) :
      SameNumbers (.matrix ⟨r, c, g, d, hr, hc⟩) (.matrix ⟨r, c, g, d', hr, hc⟩)

theorem Value.sameNumbers_iff {v w : Value} : v.SameNumbers w ↔ v.bare = w.bare := by
  constructor
  · rintro (_ | _) <;> rfl
  · intro h
    rcases v with ⟨q, d⟩ | ⟨r, c, g, d, hr, hc⟩ <;>
      rcases w with ⟨q', d'⟩ | ⟨r', c', g', d', hr', hc'⟩
    · cases h
      exact .scalar q d d'
    · cases h
    · cases h
    · cases h
      exact .matrix g d d' hr hc

inductive Token.SameNumbers : Token → Token → Prop
  | value {v w : Value} (h : v.SameNumbers w) : SameNumbers (.value v) (.value w)
  | operator (op : Operator) : SameNumbers (.operator op) (.operator op)
  | bracket (b : Bracket) : SameNumbers (.bracket b) (.bracket b)

structure Solution.SameNumbers (s s' : Solution) : Prop where
  operator : s.operator = s'.operator
  inputs : List.Forall₂ Value.SameNumbers s.inputs s'.inputs
  answer : s.answer.SameNumbers s'.answer
  steps : List.Forall₂ (fun step step' => step.value.SameNumbers step'.value) s.steps s'.steps

inductive WorkTree.SameNumbers : WorkTree → WorkTree → Prop
  | leaf : SameNumbers .leaf .leaf
  | node {s s' : Solution} {first first' second second' : WorkTree} (here : s.SameNumbers s')
      (child₁ : SameNumbers first first') (child₂ : SameNumbers second second') :
      SameNumbers (.node s first second) (.node s' first' second')

theorem map_eq_map_iff_forall₂ {α β : Type} {f : α → β} {l l' : List α} :
    l.map f = l'.map f ↔ List.Forall₂ (fun a b => f a = f b) l l' := by
  rw [← List.forall₂_eq_eq_eq, List.forall₂_map_left_iff, List.forall₂_map_right_iff]

theorem Solution.sameNumbers_of_bare {s s' : Solution} (h : s.bare = s'.bare) :
    s.SameNumbers s' := by
  obtain ⟨hop, hi, ha, hs⟩ := Solution.mk.inj h
  refine ⟨hop, ?_, Value.sameNumbers_iff.mpr ha, ?_⟩
  · exact (map_eq_map_iff_forall₂.mp hi).imp fun _ _ => Value.sameNumbers_iff.mpr
  · exact (map_eq_map_iff_forall₂.mp hs).imp fun _ _ h =>
      Value.sameNumbers_iff.mpr (Step.mk.inj h).1

theorem WorkTree.sameNumbers_of_bare {t t' : WorkTree} (h : t.bare = t'.bare) :
    t.SameNumbers t' := by
  induction t generalizing t' with
  | leaf =>
    cases t' with
    | leaf => exact .leaf
    | node => cases h
  | node s first second ih₁ ih₂ =>
    cases t' with
    | leaf => cases h
    | node s' first' second' =>
      obtain ⟨hs, h₁, h₂⟩ := WorkTree.node.inj h
      exact .node (Solution.sameNumbers_of_bare hs) (ih₁ h₁) (ih₂ h₂)

theorem Renaming.token_bare {t u : Token} (h : t.SameNumbers u) :
    bare.token t = bare.token u := by
  cases h with
  | value h => exact congrArg Token.value (Value.sameNumbers_iff.mp h)
  | operator => rfl
  | bracket => rfl

/-! ## Calculations of the same numbers -/

/-- **Display modes never influence a calculation**: token lists that differ only in the modes of
their values have the same fault, or the same operators and numbers. -/
theorem calculate_sameNumbers (limits : Limits) {tokens tokens' : List Token}
    (h : List.Forall₂ Token.SameNumbers tokens tokens') :
    (∃ fault, calculate limits tokens = .error fault ∧ calculate limits tokens' = .error fault) ∨
      (calculate limits tokens = .ok .leaf ∧ calculate limits tokens' = .ok .leaf) ∨
      ∃ t t', calculate limits tokens = .ok t ∧ calculate limits tokens' = .ok t' ∧
        t ≠ .leaf ∧ t' ≠ .leaf ∧ t.SameNumbers t' := by
  have hmap : tokens.map Renaming.bare.token = tokens'.map Renaming.bare.token :=
    map_eq_map_iff_forall₂.mpr (h.imp fun _ _ => Renaming.token_bare)
  have hbare : (calculate limits tokens).map WorkTree.bare =
      (calculate limits tokens').map WorkTree.bare := by
    rw [← calculate_bare, hmap, calculate_bare]
  cases hx : calculate limits tokens with
  | error fault =>
    cases hx' : calculate limits tokens' with
    | error fault' =>
      rw [hx, hx'] at hbare
      exact .inl ⟨fault, rfl, congrArg Except.error (Except.error.inj hbare).symm⟩
    | ok t' =>
      rw [hx, hx'] at hbare
      cases hbare
  | ok t =>
    cases hx' : calculate limits tokens' with
    | error fault' =>
      rw [hx, hx'] at hbare
      cases hbare
    | ok t' =>
      rw [hx, hx'] at hbare
      have hsame : t.SameNumbers t' := WorkTree.sameNumbers_of_bare (Except.ok.inj hbare)
      right
      cases hsame with
      | leaf => exact .inl ⟨rfl, rfl⟩
      | node here child₁ child₂ =>
        exact .inr ⟨_, _, rfl, rfl, nofun, nofun, .node here child₁ child₂⟩

/-- With `1/2` as a decimal or as a fraction, `1/2 + 3` has the same numbers, and answers of
different modes. -/
theorem calculate_sameNumbers_of_sum :
    let sum (d : DisplayMode) : List Token :=
      [.value (.scalar ⟨1 / 2, d⟩), .operator .scalarPlus, .value (.scalar (.ofInt 3))]
    List.Forall₂ Token.SameNumbers (sum .decimal) (sum .fraction) ∧
      ∃ t t', calculate .unlimited (sum .decimal) = .ok t ∧
        calculate .unlimited (sum .fraction) = .ok t' ∧ t.SameNumbers t' ∧
        t.answer?.map Value.display = some .decimal ∧
        t'.answer?.map Value.display = some .fraction := by
  intro sum
  have hworked (d : DisplayMode) : ∃ s, calculate .unlimited (sum d) = .ok (.node s .leaf .leaf) ∧
      s.answer.display = .resolve [d, .fraction] := by
    have hd : Derives 1 (sum d) _ := Derives.binary_values .scalarPlus rfl (by decide) _ _
    exact ⟨_, calculate_eq_ok_iff.mpr ⟨_, outcome_calculateTraced_of_derives nofun hd rfl⟩, rfl⟩
  have hsame : List.Forall₂ Token.SameNumbers (sum .decimal) (sum .fraction) :=
    .cons (.value (.scalar _ _ _)) (.cons (.operator _) (.cons (.value (.scalar _ _ _)) .nil))
  obtain ⟨s, hs, hdisplay⟩ := hworked .decimal
  obtain ⟨s', hs', hdisplay'⟩ := hworked .fraction
  refine ⟨hsame, _, _, hs, hs', ?_, congrArg some hdisplay, congrArg some hdisplay'⟩
  rcases calculate_sameNumbers .unlimited hsame with
    ⟨fault, hf, -⟩ | ⟨hl, -⟩ | ⟨t, t', ht, ht', -, -, htt⟩
  · rw [hs] at hf
    cases hf
  · rw [hs] at hl
    cases hl
  · rw [hs] at ht
    rw [hs'] at ht'
    cases ht
    cases ht'
    exact htt

end WorkedAlgebra
