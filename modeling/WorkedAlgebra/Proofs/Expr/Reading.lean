import WorkedAlgebra.Proofs.Expr.Build
import WorkedAlgebra.Proofs.Expr.Grammar

/-!
# Reading expressions

* **`derives_of_build`**, **`Derives.outcome_build`**: the second pass reads what is derivable.
* **`parse_eq_ok_iff_derives`**, **`parse_eq_ok_iff_build`**: what both passes read, by the grammar
  and by the second pass alone.
-/

namespace WorkedAlgebra

open Window

/-! ## What is read is derivable -/

theorem NoEmptyBrackets.eq_nil_of_replicate {n : Nat}
    (h : NoEmptyBrackets
      (List.replicate n (.bracket .opening) ++ List.replicate n (.bracket .closing))) :
    n = 0 := by
  cases n with
  | zero => rfl
  | succ n =>
    rw [List.replicate_succ', List.replicate_succ, List.append_assoc] at h
    have hp := (NoEmptyBrackets.right h).left (v := [_, _])
    exact absurd (List.isChain_pair.mp hp)
      (by simp [Token.isOpening, Token.isClosing, Token.bracket?])

theorem eq_nil_of_build_none {start : Nat} {w : List Token}
    (h : (Expr.build start w).outcome = .ok none) (hw : NoEmptyBrackets w) : w = [] := by
  obtain ⟨n, rfl⟩ := Expr.replicate_of_build_none h
  obtain rfl := hw.eq_nil_of_replicate
  rfl

theorem Derives.unary_of_root? {op : Operator} {r : List Token} {b : Expr} (rank : op.strength = 4)
    (hr : root? (.operator op :: r) = some (0, op)) (h : Derives 1 r b) :
    Derives 4 (.operator op :: r) (.unary op b) := by
  have hs := strength_le_of_root? hr
  rw [outerFrom_operator] at hs
  refine .unary rank (h.raise (by omega) (by omega) 1 fun p hp => ?_)
  rw [← rank]
  exact hs p (List.mem_cons_of_mem _ hp)

theorem Derives.binary_of_root? {op : Operator} {l r : List Token} {a b : Expr}
    (below : op.strength < 4) (hr : root? (l ++ .operator op :: r) = some (l.length, op))
    (ha : Derives 1 l a) (hb : Derives 1 r b) :
    Derives op.strength (l ++ .operator op :: r) (.binary op a b) := by
  have hpos := op.strength_pos
  have hn := (ha.nested.root?_append_operator op r).mp hr
  have hs := strength_le_of_root? hr
  rw [ha.nested.outerFrom_append_operator] at hs
  -- nothing on the left binds more loosely, nothing on the right equally loosely
  have hl : Derives op.strength l a :=
    ha.raise hpos (by omega) 0 fun p hp => hs p (List.mem_append_left _ hp)
  have hr : Derives (op.strength + 1) r b := by
    refine hb.raise (by omega) (by omega) (l.length + 1) fun p hp => ?_
    have hp' : ¬ (p.2.strength < 4 ∧ p.2.strength ≤ op.strength) := by
      rw [← replaces_eq_true, hn.2 p hp]
      exact Bool.false_ne_true
    omega
  exact .binary rfl below hl hr

theorem derives_of_build {start : Nat} {w : List Token} {e : Expr}
    (h : (Expr.build start w).outcome = .ok (some e)) (hw : NoEmptyBrackets w) :
    Derives 1 w e := by
  induction start, w using Expr.window_induction generalizing e with
  | enclosed start inner hu ih =>
    rw [Expr.outcome_build_of_unwrap? hu] at h
    have hi : NoEmptyBrackets inner := (NoEmptyBrackets.right (v := [_]) hw).left
    exact (ih h hi).group.lower (by omega) (by omega)
  | nil start =>
    rw [Expr.outcome_build_nil] at h
    cases h
  | singleton start t =>
    rw [Expr.outcome_build_singleton] at h
    obtain ⟨e', he, hs⟩ := Traced.map_eq_ok_iff.mp h
    obtain ⟨v, rfl, rfl⟩ := Expr.ofToken_eq_ok_iff.mp he
    obtain rfl := Option.some.inj hs
    exact (Derives.value v).lower (by omega) (by omega)
  | split start l op r hu hr hl ih₁ ih₂ =>
    obtain ⟨first, second, x, hf, hs, hx, he⟩ :=
      (Expr.outcome_build_split_eq_ok_iff hu hr hl).mp h
    obtain rfl := Option.some.inj he
    have hwr : NoEmptyBrackets r := (NoEmptyBrackets.right hw).right (v := [_])
    rcases Expr.apply_eq_ok_iff.mp hx with ⟨b, rfl, rfl, rank, rfl⟩ | ⟨a, b, rfl, rfl, below, rfl⟩
    · obtain rfl := eq_nil_of_build_none hf hw.left
      exact ((ih₂ hs hwr).unary_of_root? rank hr).lower (by omega) (by omega)
    · exact ((ih₁ hf hw.left).binary_of_root? below hr (ih₂ hs hwr)).lower (by omega)
        op.strength_pos
  | groups start w hu hr hl _ =>
    rw [Expr.outcome_build_groups hu hr hl] at h
    cases h

/-! ## What is derivable is read -/

theorem Derives.outcome_build {k : Nat} {w : List Token} {e : Expr} (h : Derives k w e)
    (start : Nat) : (Expr.build start w).outcome = .ok (some e) := by
  induction h generalizing start with
  | value v => rw [Expr.outcome_build_singleton]; rfl
  | group inside ih => rw [Expr.outcome_build_of_unwrap? inside.nested.unwrap?_enclose, ih]
  | @unary op w e rank operand ih =>
    have hlen := List.length_pos_iff.mpr operand.ne_nil
    have hr : root? ([] ++ .operator op :: w) = some (([] : List Token).length, op) := by
      rw [Nested.nil.root?_append_operator]
      refine ⟨fun c hc => absurd hc (by simp [root?, Search.run]), fun p hp => ?_⟩
      have := operand.le_strength _ p hp
      rw [Bool.eq_false_iff, ne_eq, replaces_eq_true]
      omega
    have hu : unwrap? ([] ++ .operator op :: w) = none := unwrap?_cons_of_plain rfl w
    exact (Expr.outcome_build_split_eq_ok_iff hu hr (by simpa using hlen)).mpr
      ⟨none, some e, _, Expr.outcome_build_nil start, ih _,
        Expr.apply_eq_ok_iff.mpr (.inl ⟨e, rfl, rfl, rank, rfl⟩), rfl⟩
  | @binary k op l r a b rank below first second ih₁ ih₂ =>
    have hlen := List.length_pos_iff.mpr first.ne_nil
    have hu : unwrap? (l ++ .operator op :: r) = none :=
      first.nested.unwrap?_append first.ne_nil (by simp)
    have hr : root? (l ++ .operator op :: r) = some (l.length, op) := by
      rw [first.nested.root?_append_operator]
      refine ⟨fun c hc => ?_, fun p hp => ?_⟩
      · have := first.le_strength _ c (mem_outerFrom_of_root? hc)
        rw [replaces_eq_true]
        omega
      · have := second.le_strength _ p hp
        rw [Bool.eq_false_iff, ne_eq, replaces_eq_true]
        omega
    exact (Expr.outcome_build_split_eq_ok_iff hu hr (by simp; omega)).mpr
      ⟨some a, some b, _, ih₁ _, ih₂ _,
        Expr.apply_eq_ok_iff.mpr (.inr ⟨a, b, rfl, rfl, by omega, rfl⟩), rfl⟩
  | lift _ _ ih => exact ih start

theorem Derives.unique {j k : Nat} {w : List Token} {e e' : Expr} (h : Derives j w e)
    (h' : Derives k w e') : e = e' := by
  have hb := (h.outcome_build 0).symm.trans (h'.outcome_build 0)
  exact Option.some.inj (Except.ok.inj hb)

/-! ## Both passes -/

theorem parse_eq_ok_iff {tokens : List Token} {e : Expr} :
    Expr.parse tokens = .ok e ↔
      localFault? tokens = none ∧ (Expr.build 0 tokens).outcome = .ok (some e) := by
  rw [Expr.parse, Expr.read, Traced.outcome_bind_eq_ok_iff]
  constructor
  · rintro ⟨⟨⟩, hv, h⟩
    obtain ⟨first, hb, h⟩ := Traced.outcome_bind_eq_ok_iff.mp h
    refine ⟨outcome_validate_eq_ok_iff.mp hv, ?_⟩
    cases first with
    | none => cases h
    | some e' =>
      obtain rfl := Except.ok.inj h
      exact hb
  · rintro ⟨hl, hb⟩
    exact ⟨(), outcome_validate_eq_ok_iff.mpr hl,
      Traced.outcome_bind_eq_ok_iff.mpr ⟨some e, hb, rfl⟩⟩

theorem parse_eq_error_iff {tokens : List Token} {fault : ParseFault} :
    Expr.parse tokens = .error fault ↔
      localFault? tokens = some fault ∨
        localFault? tokens = none ∧ (Expr.build 0 tokens).outcome = .error fault := by
  rw [Expr.parse, Expr.read, Traced.outcome_bind, Traced.bind_eq_error_iff,
    outcome_validate_eq_error_iff]
  refine or_congr_right ⟨?_, ?_⟩
  · rintro ⟨⟨⟩, hv, h⟩
    have hl := outcome_validate_eq_ok_iff.mp hv
    rw [Traced.outcome_bind] at h
    rcases Traced.bind_eq_error_iff.mp h with h | ⟨first, hb, h⟩
    · exact ⟨hl, h⟩
    · cases first with
      | some e => cases h
      | none =>
        obtain rfl := eq_nil_of_build_none hb (noEmptyBrackets_of_localFault? hl)
        cases hl
  · rintro ⟨hl, hb⟩
    refine ⟨(), outcome_validate_eq_ok_iff.mpr hl, ?_⟩
    rw [Traced.outcome_bind]
    exact Traced.bind_eq_error_iff.mpr (.inl hb)

/-- **Exactly the token lists of the grammar are read, each as the operator tree of its derivation
with the brackets erased.** -/
theorem parse_eq_ok_iff_derives (tokens : List Token) (e : Expr) :
    Expr.parse tokens = .ok e ↔ Derives 1 tokens e := by
  rw [parse_eq_ok_iff]
  constructor
  · rintro ⟨hl, hb⟩
    exact derives_of_build hb (noEmptyBrackets_of_localFault? hl)
  · intro h
    exact ⟨h.localFault?_eq_none, h.outcome_build 0⟩

/-- **The checks on neighbours add the rule on empty brackets to the second pass, and nothing
else.** -/
theorem parse_eq_ok_iff_build (tokens : List Token) (e : Expr) :
    (Expr.parse tokens = .ok e ↔
      (Expr.buildAll tokens).outcome = .ok (some e) ∧ NoEmptyBrackets tokens) ∧
    ((Expr.buildAll tokens).outcome = .ok (some e) → NoEmptyBrackets tokens →
      (validate tokens).outcome = .ok ()) := by
  rw [parse_eq_ok_iff, Expr.buildAll]
  have passes (hb : (Expr.build 0 tokens).outcome = .ok (some e)) (hw : NoEmptyBrackets tokens) :
      localFault? tokens = none := (derives_of_build hb hw).localFault?_eq_none
  refine ⟨⟨?_, ?_⟩, fun hb hw => outcome_validate_eq_ok_iff.mpr (passes hb hw)⟩
  · rintro ⟨hl, hb⟩
    exact ⟨hb, noEmptyBrackets_of_localFault? hl⟩
  · rintro ⟨hb, hw⟩
    exact ⟨passes hb hw, hb⟩

theorem parse_eq_ok_iff_build_of_product :
    let n (i : Int) : Value := .scalar (.ofInt i)
    let tokens : List Token := enclose [.value (n 1), .operator .scalarPlus, .value (n 2)] ++
      [.operator .scalarMultiply, .value (n 3)]
    let e : Expr := .binary .scalarMultiply
      (.binary .scalarPlus (.value (n 1)) (.value (n 2))) (.value (n 3))
    (Expr.buildAll tokens).outcome = .ok (some e) ∧ NoEmptyBrackets tokens ∧
      (validate tokens).outcome = .ok () ∧ Expr.parse tokens = .ok e := by
  intro n tokens e
  have sum := Derives.binary_values .scalarPlus rfl (by decide) (n 1) (n 2)
  have product : Derives 2 tokens e :=
    .binary rfl (by decide) (sum.group.lower (by decide) (by decide))
      ((Derives.value (n 3)).lower (by decide) (by decide))
  have hb : (Expr.buildAll tokens).outcome = .ok (some e) := product.outcome_build 0
  have hw : NoEmptyBrackets tokens := by
    unfold NoEmptyBrackets
    decide
  have h := parse_eq_ok_iff_build tokens e
  exact ⟨hb, hw, h.2 hb hw, h.1.mpr ⟨hb, hw⟩⟩

end WorkedAlgebra
