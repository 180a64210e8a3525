import Mathlib.Data.List.Basic
import Mathlib.Order.Bounds.Basic
import WorkedAlgebra.Proofs.Expr.Nesting

/-!
# Which brackets are removed

An enclosing pair of brackets is found by its two ends and by what stands between them; whether the
last bracket closes the first one is not looked at (**`unwrap?_eq_some_iff`**).
-/

namespace WorkedAlgebra

/-- What a token adds to the number of open brackets. -/
def Token.opened : Token → ℤ
  | .bracket .opening => 1
  | .bracket .closing => -1
  | _ => 0

theorem Token.neg_one_le_opened : (t : Token) → -1 ≤ t.opened
  | .value _ | .operator _ | .bracket .opening | .bracket .closing => by
    simp only [Token.opened]
    omega

theorem Token.eq_closing_of_opened_neg : {t : Token} → t.opened < 0 → t = .bracket .closing
  | .bracket .closing, _ => rfl

namespace Window

/-- The opening brackets of a list less its closing ones. -/
def balance : List Token → ℤ
  | [] => 0
  | t :: w => t.opened + balance w

/-- The first token is an opening bracket, and the last one is the first at which it is closed. -/
structure ClosedByLast (w : List Token) : Prop where
  long : 2 ≤ w.length
  opening : w.head? = some (.bracket .opening)
  first : IsLeast {n | 0 < n ∧ balance (w.take n) = 0} w.length

/-- The ends are an opening and a closing bracket, between which the brackets never balance. -/
structure HeldOpen (w : List Token) : Prop where
  long : 2 ≤ w.length
  opening : w.head? = some (.bracket .opening)
  closing : w.getLast? = some (.bracket .closing)
  held : ∀ n, 0 < n → n < w.length → balance (w.take n) ≠ 0

/-! ## Counting brackets -/

@[simp] theorem balance_nil : balance [] = 0 := rfl

@[simp] theorem balance_cons (t : Token) (w : List Token) :
    balance (t :: w) = t.opened + balance w := rfl

@[simp] theorem balance_append (v w : List Token) : balance (v ++ w) = balance v + balance w := by
  induction v with
  | nil => simp
  | cons t v ih =>
    rw [List.cons_append, balance_cons, balance_cons, ih]
    omega

theorem balance_concat (w : List Token) (t : Token) :
    balance (w ++ [t]) = balance w + t.opened := by
  simp

theorem balance_take_pos {w : List Token} (opening : w.head? = some (.bracket .opening))
    (held : ∀ n, 0 < n → n < w.length → balance (w.take n) ≠ 0) {n : ℕ} (hn : 0 < n)
    (hlt : n < w.length) : 0 < balance (w.take n) := by
  induction n with
  | zero => exact absurd hn (Nat.lt_irrefl 0)
  | succ n ih =>
    rcases n.eq_zero_or_pos with rfl | hpos
    · obtain ⟨w, rfl⟩ := List.head?_eq_some_iff.mp opening
      simp [Token.opened]
    · -- a token closes no more than one bracket
      have hprev := ih hpos (by omega)
      have hstep := Token.neg_one_le_opened w[n]
      have hne := held (n + 1) hn hlt
      rw [List.take_succ_eq_append_getElem (by omega), balance_concat] at hne ⊢
      omega

theorem balance_dropLast_pos {w : List Token} (long : 2 ≤ w.length)
    (opening : w.head? = some (.bracket .opening))
    (held : ∀ n, 0 < n → n < w.length → balance (w.take n) ≠ 0) : 0 < balance w.dropLast := by
  rw [List.dropLast_eq_take]
  exact balance_take_pos opening held (by omega) (by omega)

/-- **The last token closes the first one exactly if nothing before it does and no bracket is left
open.** -/
theorem closedByLast_iff {w : List Token} : ClosedByLast w ↔ HeldOpen w ∧ balance w ≤ 0 := by
  rcases List.eq_nil_or_concat' w with rfl | ⟨v, t, rfl⟩
  · exact iff_of_false (fun h => absurd h.long (by simp)) fun h => absurd h.1.long (by simp)
  constructor
  · intro h
    have hzero := h.first.1.2
    rw [List.take_length] at hzero
    have held : ∀ n, 0 < n → n < (v ++ [t]).length → balance ((v ++ [t]).take n) ≠ 0 :=
      fun n hn hlt hz => absurd (h.first.2 ⟨hn, hz⟩) (Nat.not_le.mpr hlt)
    have hv := balance_dropLast_pos h.long h.opening held
    rw [List.dropLast_concat] at hv
    -- the last token balances what is open before it
    have ht : t.opened < 0 := by
      rw [balance_concat] at hzero
      omega
    obtain rfl := Token.eq_closing_of_opened_neg ht
    exact ⟨⟨h.long, h.opening, List.getLast?_concat, held⟩, hzero.le⟩
  · rintro ⟨h, hle⟩
    have hv := balance_dropLast_pos h.long h.opening h.held
    rw [List.dropLast_concat] at hv
    obtain rfl : t = .bracket .closing := by simpa using h.closing
    have hzero : balance (v ++ [.bracket .closing]) = 0 := by
      rw [balance_concat, Token.opened] at hle ⊢
      omega
    refine ⟨h.long, h.opening, ⟨⟨by simp, by rwa [List.take_length]⟩, fun n hn => ?_⟩⟩
    by_contra hlt
    exact h.held n hn.1 (Nat.not_le.mp hlt) hn.2

/-! ## The search between the two ends -/

theorem closesWithin_iff {n : ℕ} {w : List Token} :
    closesWithin (n + 1) w = true ↔ ∃ k, balance (w.take k) = -(n + 1 : ℤ) := by
  induction w generalizing n with
  | nil =>
    simp only [closesWithin, List.take_nil, balance_nil]
    refine iff_of_false Bool.false_ne_true ?_
    rintro ⟨_, h⟩
    omega
  | cons t w ih =>
    have hcons : (∃ k, balance ((t :: w).take k) = -(n + 1 : ℤ)) ↔
        ∃ k, t.opened + balance (w.take k) = -(n + 1 : ℤ) := by
      constructor
      · rintro ⟨_ | k, h⟩
        · rw [List.take_zero, balance_nil] at h
          omega
        · exact ⟨k, by rwa [List.take_succ_cons, balance_cons] at h⟩
      · rintro ⟨k, h⟩
        exact ⟨k + 1, by rwa [List.take_succ_cons, balance_cons]⟩
    rw [hcons]
    cases t with
    | value v => simpa [closesWithin, Token.opened] using ih
    | operator op => simpa [closesWithin, Token.opened] using ih
    | bracket b =>
      cases b with
      | opening =>
        rw [closesWithin, ih]
        refine exists_congr fun k => ?_
        rw [Token.opened]
        omega
      | closing =>
        cases n with
        | zero => exact iff_of_true (by rw [closesWithin, closesWithin]) ⟨0, rfl⟩
        | succ n =>
          rw [closesWithin, ih]
          refine exists_congr fun k => ?_
          rw [Token.opened]
          omega

theorem balance_take_enclosed {v : List Token} {k : ℕ} (hk : k ≤ v.length) (t : Token) :
    balance ((.bracket .opening :: (v ++ [t])).take (k + 1)) = 1 + balance (v.take k) := by
  rw [List.take_succ_cons, balance_cons, List.take_append_of_le_length hk, Token.opened]

theorem heldOpen_concat_iff {v : List Token} {t : Token} :
    HeldOpen (.bracket .opening :: (v ++ [t])) ↔
      t = .bracket .closing ∧ ¬ closesWithin 1 v = true := by
  have hlen : (.bracket .opening :: (v ++ [t]) : List Token).length = v.length + 2 := by simp
  have hlast : (.bracket .opening :: (v ++ [t]) : List Token).getLast? = some t := by
    rw [← List.cons_append, List.getLast?_concat]
  rw [closesWithin_iff (n := 0)]
  constructor
  · intro h
    refine ⟨Option.some.inj (hlast.symm.trans h.closing), fun ⟨k, hk⟩ => ?_⟩
    -- beyond the end of the list nothing is counted
    have hmin : balance (v.take (min k v.length)) = -1 := by
      rwa [List.take_eq_take_min] at hk
    refine h.held (min k v.length + 1) (by omega) (by omega) ?_
    rw [balance_take_enclosed (by omega), hmin]
    rfl
  · rintro ⟨rfl, hv⟩
    refine ⟨by omega, rfl, hlast, fun n hn hlt hz => ?_⟩
    obtain ⟨k, rfl⟩ := Nat.exists_eq_add_of_lt hn
    rw [Nat.zero_add, balance_take_enclosed (by omega)] at hz
    exact hv ⟨k, by omega⟩

theorem unwrap?_eq_some_iff {w inner : List Token} :
    unwrap? w = some inner ↔ HeldOpen w ∧ w.tail.dropLast = inner := by
  match w with
  | [] => exact iff_of_false nofun fun h => absurd h.1.long (by simp)
  | .value _ :: w | .operator _ :: w | .bracket .closing :: w =>
    exact iff_of_false nofun fun h => absurd h.1.opening (by simp)
  | .bracket .opening :: w =>
    rcases List.eq_nil_or_concat' w with rfl | ⟨v, t, rfl⟩
    · exact iff_of_false nofun fun h => absurd h.1.long (by simp)
    · rw [heldOpen_concat_iff, unwrap?, List.getLast?_concat, List.dropLast_concat, List.tail_cons,
        List.dropLast_concat, Option.ite_none_right_eq_some, Option.some.injEq, Option.some.injEq]

theorem Nested.balance_eq_zero {w : List Token} (h : Nested w) : balance w = 0 := by
  induction h with
  | nil => rfl
  | @atom t w plain _ ih =>
    cases t with
    | bracket b => exact absurd plain (by simp [Token.bracket?])
    | _ =>
      rw [balance_cons, ih]
      rfl
  | group _ _ ih₁ ih₂ =>
    rw [balance_cons, balance_append, balance_cons, ih₁, ih₂]
    rfl

theorem Nested.unwrap?_eq_none {w : List Token} (h : Nested w) (unenclosed : ¬ ClosedByLast w) :
    unwrap? w = none := by
  refine Option.eq_none_iff_forall_ne_some.mpr fun inner hs => unenclosed ?_
  exact closedByLast_iff.mpr ⟨(unwrap?_eq_some_iff.mp hs).1, h.balance_eq_zero.le⟩

/-! ## What is removed -/

/-- **What is removed.** Every window loses its two ends exactly if it is held open; the last token
then closes the first one exactly if no bracket is left open. -/
theorem unwrap_of_heldOpen (w : List Token) :
    (HeldOpen w → unwrap w = w.tail.dropLast) ∧ (¬ HeldOpen w → unwrap w = w) ∧
      (ClosedByLast w ↔ HeldOpen w ∧ balance w ≤ 0) := by
  refine ⟨fun h => ?_, fun h => ?_, closedByLast_iff⟩
  · rw [unwrap, unwrap?_eq_some_iff.mpr ⟨h, rfl⟩, Option.getD_some]
  · have hnone : unwrap? w = none :=
      Option.eq_none_iff_forall_ne_some.mpr fun inner hs => h (unwrap?_eq_some_iff.mp hs).1
    rw [unwrap, hnone, Option.getD_none]

/-- **A first bracket that is never closed is removed all the same**: `( ( )` becomes `(`, although
its last token closes the second one. -/
theorem unwrap_of_unclosed :
    let w : List Token := [.bracket .opening, .bracket .opening, .bracket .closing]
    unwrap w = [.bracket .opening] ∧ ¬ ClosedByLast w ∧
      ¬ ∀ w, (ClosedByLast w → unwrap w = w.tail.dropLast) ∧
        (¬ ClosedByLast w → unwrap w = w) := by
  intro w
  have hw : unwrap w = [.bracket .opening] := by decide
  have hclosed : ¬ ClosedByLast w := fun h => absurd h.first.1.2 (by decide)
  refine ⟨hw, hclosed, fun hall => ?_⟩
  have hsame := (hall w).2 hclosed
  rw [hw] at hsame
  exact absurd hsame (by decide)

end Window
end WorkedAlgebra
