import Mathlib.Data.List.Chain
import WorkedAlgebra.Expr.Neighbours
import WorkedAlgebra.Proofs.Expr.Nesting

/-!
# What the checks on neighbours check

* **`bracketFault?_eq_none_iff`**, **`neighbourFault?_eq_none_iff`**: when the brackets and when the
  neighbours of a list pass.
-/

namespace WorkedAlgebra

open Window

/-! ## Brackets -/

theorem map_fst_filterMap_zipIdx (w : List Token) (n : Nat) :
    ((w.zipIdx n).filterMap fun p => p.1.bracket?.map fun b => (b, p.2)).map Prod.fst =
      w.filterMap Token.bracket? := by
  have h : w.filterMap Token.bracket? =
      ((w.zipIdx n).map Prod.fst).filterMap Token.bracket? := by
    rw [List.zipIdx_map_fst]
  rw [h, List.filterMap_map, List.map_filterMap]
  congr 1
  funext p
  cases h : p.1.bracket? <;> simp [h]

theorem map_fst_brackets (w : List Token) :
    (brackets w).map Prod.fst = w.filterMap Token.bracket? :=
  map_fst_filterMap_zipIdx w 0

theorem countP_brackets (w : List Token) (b : Bracket) :
    (brackets w).countP (fun p => p.1 == b) = (w.filterMap Token.bracket?).count b := by
  rw [← map_fst_brackets, List.count, List.countP_map]
  rfl

theorem exists_of_brackets_eq {w : List Token} {bs₁ bs₂ : List (Bracket × Nat)} {b : Bracket}
    {i : Nat} (h : brackets w = bs₁ ++ (b, i) :: bs₂) :
    ∃ l r, w = l ++ .bracket b :: r ∧ i = l.length ∧
      l.filterMap Token.bracket? = bs₁.map Prod.fst ∧
      r.filterMap Token.bracket? = bs₂.map Prod.fst := by
  obtain ⟨z₁, z, hz, h₁, h₂⟩ := List.filterMap_eq_append_iff.mp h
  obtain ⟨z₂, a, z₃, rfl, hnone, ha, h₃⟩ := List.filterMap_eq_cons_iff.mp h₂
  rw [← List.append_assoc] at hz
  obtain ⟨l, m, rfl, hl, hm⟩ := List.zipIdx_eq_append_iff.mp hz
  obtain ⟨t, r, rfl, rfl, rfl⟩ := List.zipIdx_eq_cons_iff.mp hm.symm
  obtain ⟨b', hb, hi⟩ := Option.map_eq_some_iff.mp ha
  obtain ⟨rfl, rfl⟩ := Prod.mk.inj hi
  refine ⟨l, r, ?_, Nat.zero_add _, ?_, ?_⟩
  · cases t with
    | bracket b => rw [Option.some.inj hb]
    | value v => cases hb
    | operator op => cases hb
  · -- between the brackets before and this one there are none
    rw [← map_fst_filterMap_zipIdx l 0, ← hl, List.filterMap_append, h₁,
      List.filterMap_eq_nil_iff.mpr hnone, List.append_nil]
  · rw [← map_fst_filterMap_zipIdx r, h₃]

/-- **The brackets of a list pass when the first one opens and half of them open.** -/
theorem bracketFault?_eq_none_iff {w : List Token} :
    bracketFault? w = none ↔
      (w.filterMap Token.bracket?).head? ≠ some .closing ∧
        (w.filterMap Token.bracket?).count .opening =
          (w.filterMap Token.bracket?).count .closing := by
  rw [← countP_brackets, ← countP_brackets, ← map_fst_brackets, List.head?_map, bracketFault?]
  split
  · next i rest h => simp [h]
  · next h =>
    have hh : (brackets w).head?.map Prod.fst ≠ some .closing := by
      intro hc
      obtain ⟨⟨b, i⟩, hb, rfl⟩ := Option.map_eq_some_iff.mp hc
      obtain ⟨rest, hrest⟩ := List.head?_eq_some_iff.mp hb
      exact h i rest hrest
    dsimp only
    by_cases hc : (brackets w).countP (fun b => b.1 == .opening) =
        (brackets w).countP (fun b => b.1 == .closing)
    · rw [if_pos hc]
      exact iff_of_true rfl ⟨hh, hc⟩
    · rw [if_neg hc]
      exact iff_of_false (by simp) fun h => hc h.2

theorem filterMap_bracket?_group (v w : List Token) :
    (.bracket .opening :: (v ++ .bracket .closing :: w) : List Token).filterMap Token.bracket? =
      .opening :: (v.filterMap Token.bracket? ++ .closing :: w.filterMap Token.bracket?) := by
  simp only [List.filterMap_cons, Token.bracket?, List.filterMap_append]

theorem Window.Nested.bracketFault?_eq_none {w : List Token} (hw : Nested w) :
    bracketFault? w = none := by
  rw [bracketFault?_eq_none_iff]
  induction hw with
  | nil => simp
  | atom plain _ ih => rwa [List.filterMap_cons_none plain]
  | group _ _ ih₁ ih₂ =>
    rw [filterMap_bracket?_group]
    refine ⟨by simp, ?_⟩
    rw [List.count_cons_self, List.count_append, List.count_cons_of_ne (by decide),
      List.count_cons_of_ne (by decide), List.count_append, List.count_cons_self, ih₁.2, ih₂.2]
    omega

theorem count_bracket?_opening (w : List Token) :
    (w.filterMap Token.bracket?).count .opening = w.countP Token.isOpening :=
  List.count_filterMap

theorem count_bracket?_closing (w : List Token) :
    (w.filterMap Token.bracket?).count .closing = w.countP Token.isClosing :=
  List.count_filterMap

/-! ## Neighbours -/

/-- Two tokens may stand side by side. -/
def Fit (previous current : Token) : Prop :=
  ¬ (previous.isOperator ∧ current.isBinary) ∧ ¬ (previous.isValue ∧ current.isValue) ∧
    ¬ (previous.isUnary ∧ current.isClosing) ∧ ¬ (previous.isOpening ∧ current.isClosing)

theorem pairFault?_eq_none_iff {i : Nat} {previous current : Token} :
    pairFault? i previous current = none ↔ Fit previous current := by
  rw [pairFault?, Fit]
  split
  · next h => simp_all
  split
  · next h => simp_all
  split
  · next h => simp_all
  split
  · next h => simp_all
  · next h₁ h₂ h₃ h₄ => simp_all

/-- **The neighbours of a list pass when any two of them fit.** -/
theorem neighbourFault?_eq_none_iff {i : Nat} {w : List Token} :
    neighbourFault? i w = none ↔ w.IsChain Fit := by
  fun_induction neighbourFault? i w with
  | case1 => simp
  | case2 => simp
  | case3 i previous current rest ih =>
    rw [Option.or_eq_none_iff, pairFault?_eq_none_iff, ih, List.isChain_cons_cons]

theorem operator?_eq_none {t : Token} (ho : t.isOperator = false) : t.operator? = none := by
  rwa [Token.isOperator, Option.isSome_eq_false_iff, Option.isNone_iff_eq_none] at ho

theorem isUnary_eq_false {t : Token} (ho : t.isOperator = false) : t.isUnary = false := by
  rw [Token.isUnary, operator?_eq_none ho, Option.any_none]

theorem isBinary_eq_false {t : Token} (ho : t.isOperator = false) : t.isBinary = false := by
  rw [Token.isBinary, operator?_eq_none ho, Option.any_none]

theorem fit_operator_left {op : Operator} {t : Token} (hb : t.isBinary = false)
    (hc : t.isClosing = false) : Fit (.operator op) t := by
  simp [Fit, hb, hc, Token.isValue, Token.value?, Token.isOpening, Token.bracket?]

theorem fit_operator_right {op : Operator} {t : Token} (ho : t.isOperator = false) :
    Fit t (.operator op) := by
  simp [Fit, ho, Token.isValue, Token.value?, Token.isClosing, Token.bracket?]

theorem fit_opening_left {t : Token} (hc : t.isClosing = false) :
    Fit (.bracket .opening) t := by
  simp [Fit, hc, Token.isValue, Token.value?, Token.isOperator, Token.isUnary, Token.operator?]

theorem fit_closing_right {t : Token} (ho : t.isOperator = false) (hb : t.isOpening = false) :
    Fit t (.bracket .closing) := by
  simp [Fit, ho, hb, isUnary_eq_false ho, Token.isValue, Token.value?]

/-! ## The first pass as a whole -/

theorem outcome_validate_eq_ok_iff {w : List Token} :
    (validate w).outcome = .ok () ↔ localFault? w = none := by
  rw [validate]
  cases localFault? w with
  | some fault => exact iff_of_false nofun nofun
  | none =>
    refine iff_of_true ?_ rfl
    dsimp only
    split <;> rfl

theorem outcome_validate_eq_error_iff {w : List Token} {fault : ParseFault} :
    (validate w).outcome = .error fault ↔ localFault? w = some fault := by
  rw [validate]
  cases localFault? w with
  | some f => simp
  | none =>
    refine iff_of_false ?_ (by simp)
    dsimp only
    split <;> simp

/-- No opening bracket is directly followed by a closing one. -/
def NoEmptyBrackets (w : List Token) : Prop :=
  w.IsChain fun previous current => ¬ (previous.isOpening ∧ current.isClosing)

theorem NoEmptyBrackets.left {v w : List Token} (h : NoEmptyBrackets (v ++ w)) :
    NoEmptyBrackets v :=
  List.IsChain.left_of_append h

theorem NoEmptyBrackets.right {v w : List Token} (h : NoEmptyBrackets (v ++ w)) :
    NoEmptyBrackets w :=
  List.IsChain.right_of_append h

theorem noEmptyBrackets_of_localFault? {w : List Token} (h : localFault? w = none) :
    NoEmptyBrackets w := by
  rcases w with _ | ⟨first, _ | ⟨second, rest⟩⟩
  · exact List.isChain_nil
  · exact List.isChain_singleton first
  · rw [localFault?, Option.or_eq_none_iff, if_neg (by simp), severalFault?] at h
    by_cases hb : first.isBinary
    · rw [if_pos hb] at h
      exact absurd h.2 (by simp)
    · rw [if_neg hb, Option.or_eq_none_iff, neighbourFault?_eq_none_iff] at h
      exact h.2.1.imp fun _ _ hf => hf.2.2.2

end WorkedAlgebra
