import Mathlib.Order.Bounds.Basic
import WorkedAlgebra.Proofs.Expr.Root

/-!
# Which operator is applied last

* **`root?_isLoosest`**: the operator applied last, by the positions of the operators outside
  brackets alone.
-/

namespace WorkedAlgebra.Window

/-- How many brackets are open after a token. A closing bracket too many is passed over. -/
def nest (depth : ℕ) : Token → ℕ
  | .bracket .opening => depth + 1
  | .bracket .closing => depth - 1
  | _ => depth

/-- How many brackets are open after a list of tokens, a count that never falls below zero. -/
def depthAfter (w : List Token) : ℕ :=
  w.foldl nest 0

/-- An operator stands at a position of a window outside all brackets. -/
def Outside (w : List Token) (p : ℕ) (op : Operator) : Prop :=
  w[p]? = some (.operator op) ∧ depthAfter (w.take p) = 0

/-- The positions of the loosest operators with two operands outside all brackets. -/
def loosestBinary (w : List Token) : Set ℕ :=
  {p | ∃ op, Outside w p op ∧ op.isBinary = true ∧
    ∀ q o, Outside w q o → o.isBinary = true → op.strength ≤ o.strength}

/-- The positions of the operators with one operand outside all brackets. -/
def outerUnary (w : List Token) : Set ℕ :=
  {p | ∃ op, Outside w p op ∧ op.isUnary = true}

/-! ## Operators outside brackets -/

section

variable {i depth p : ℕ} {op : Operator}

theorem mem_outerFrom_cons {t : Token} {w : List Token} :
    (p, op) ∈ outerFrom i depth (t :: w) ↔
      (t = .operator op ∧ depth = 0 ∧ p = i) ∨ (p, op) ∈ outerFrom (i + 1) (nest depth t) w := by
  cases t with
  | value v => simp [outerFrom, nest]
  | operator op' =>
    by_cases hd : depth = 0
    · subst hd
      simp only [outerFrom_operator, nest, List.mem_cons, Prod.mk.injEq, Token.operator.injEq,
        true_and, and_comm, eq_comm]
    · simp [outerFrom, nest, hd]
  | bracket b => cases b <;> simp [outerFrom, nest]

theorem mem_outerFrom_iff_exists {w : List Token} :
    (p, op) ∈ outerFrom i depth w ↔
      ∃ k, p = i + k ∧ w[k]? = some (.operator op) ∧ (w.take k).foldl nest depth = 0 := by
  induction w generalizing i depth with
  | nil => simp [outerFrom]
  | cons t w ih =>
    rw [mem_outerFrom_cons, ih]
    constructor
    · rintro (⟨rfl, hd, rfl⟩ | ⟨k, rfl, hk, hd⟩)
      · exact ⟨0, rfl, rfl, hd⟩
      · exact ⟨k + 1, by omega, hk, hd⟩
    · rintro ⟨_ | k, rfl, hk, hd⟩
      · exact .inl ⟨Option.some.inj hk, hd, rfl⟩
      · exact .inr ⟨k, by omega, hk, hd⟩

theorem mem_outerFrom_iff {w : List Token} : (p, op) ∈ outerFrom 0 0 w ↔ Outside w p op := by
  rw [mem_outerFrom_iff_exists]
  constructor
  · rintro ⟨k, rfl, hk⟩
    rwa [Nat.zero_add]
  · exact fun h => ⟨p, (Nat.zero_add p).symm, h⟩

theorem pairwise_outerFrom (i depth : ℕ) (w : List Token) :
    (outerFrom i depth w).Pairwise fun a b => a.1 < b.1 := by
  fun_induction outerFrom i depth w with
  | case1 => exact .nil
  | case2 i depth w ih | case3 i depth w ih | case4 i depth v w ih | case6 i depth op w _ ih =>
    exact ih
  | case5 i op w ih => exact .cons (fun b hb => (bounds_of_mem_outerFrom hb).1) ih

end

/-! ## The operator applied last -/

section

variable {w : List Token} {q : ℕ × Operator}

theorem isBinary_of_root? (h : root? w = some q)
    (hb : ∃ p op, Outside w p op ∧ op.isBinary = true) : q.2.isBinary = true := by
  obtain ⟨p, op, hout, hop⟩ := hb
  have hle : q.2.strength ≤ op.strength :=
    strength_le_of_root? h (p, op) (mem_outerFrom_iff.mpr hout)
  exact q.2.isBinary_iff.mpr (Nat.lt_of_le_of_lt hle (op.isBinary_iff.mp hop))

theorem exists_split_of_root? (h : root? w = some q) :
    ∃ l r, outerFrom 0 0 w = l ++ q :: r ∧ (∀ a ∈ l, a.1 < q.1 ∧ q.2.isBinary = true) ∧
      ∀ a ∈ r, q.1 < a.1 ∧ replaces a.2 q.2 = false := by
  rw [root?_eq_foldl] at h
  obtain ⟨l, r, hps, hl, hr⟩ := exists_append_of_foldl_later h
  have hsorted := pairwise_outerFrom 0 0 w
  rw [hps, List.pairwise_append, List.pairwise_cons] at hsorted
  obtain ⟨-, ⟨hafter, -⟩, hbefore⟩ := hsorted
  refine ⟨l, r, hps, fun a ha => ⟨hbefore a ha q List.mem_cons_self, ?_⟩,
    fun a ha => ⟨hafter a ha, hr a ha⟩⟩
  cases l with
  | nil => cases ha
  | cons b l =>
    obtain ⟨c, hc⟩ := Option.isSome_iff_exists.mp (isSome_foldl_later l b)
    exact q.2.isBinary_iff.mpr (replaces_eq_true.mp (hl c hc)).1

theorem isGreatest_of_root? (h : root? w = some q) (hq : q.2.isBinary = true) :
    IsGreatest (loosestBinary w) q.1 := by
  have hmem : Outside w q.1 q.2 := mem_outerFrom_iff.mp (mem_outerFrom_of_root? h)
  obtain ⟨l, r, hps, hl, hr⟩ := exists_split_of_root? h
  refine ⟨⟨q.2, hmem, hq, fun p op hout _ => ?_⟩, ?_⟩
  · exact strength_le_of_root? h (p, op) (mem_outerFrom_iff.mpr hout)
  · rintro p ⟨op, hout, hop, hle⟩
    have hp := mem_outerFrom_iff.mpr hout
    rw [hps, List.mem_append, List.mem_cons] at hp
    rcases hp with hp | rfl | hp
    · exact Nat.le_of_lt (hl _ hp).1
    · exact Nat.le_refl p
    · -- an equally loose operator to the right would have replaced the one that was found
      have hrep : replaces op q.2 = true :=
        replaces_eq_true.mpr ⟨op.isBinary_iff.mp hop, hle q.1 q.2 hmem hq⟩
      rw [(hr _ hp).2] at hrep
      cases hrep

theorem isLeast_of_root? (h : root? w = some q) (hq : q.2.isUnary = true) :
    IsLeast (outerUnary w) q.1 := by
  refine ⟨⟨q.2, mem_outerFrom_iff.mp (mem_outerFrom_of_root? h), hq⟩, ?_⟩
  obtain ⟨l, r, hps, hl, hr⟩ := exists_split_of_root? h
  rintro p ⟨op, hout, -⟩
  have hp := mem_outerFrom_iff.mpr hout
  rw [hps, List.mem_append, List.mem_cons] at hp
  rcases hp with hp | rfl | hp
  · have hb := (hl _ hp).2
    rw [q.2.isBinary_eq_not, hq] at hb
    cases hb
  · exact Nat.le_refl p
  · exact Nat.le_of_lt (hr _ hp).1

end

/-- **The operator applied last** is the last of the loosest operators with two operands outside all
brackets, or else the first with one operand, if there is any. -/
theorem root?_isLoosest (w : List Token) :
    ((root? w).map Prod.fst = none ↔ ∀ p op, ¬ Outside w p op) ∧
      ((∃ p op, Outside w p op ∧ op.isBinary = true) →
        ∃ p, (root? w).map Prod.fst = some p ∧ IsGreatest (loosestBinary w) p) ∧
      ((∃ p op, Outside w p op) → (¬ ∃ p op, Outside w p op ∧ op.isBinary = true) →
        ∃ p, (root? w).map Prod.fst = some p ∧ IsLeast (outerUnary w) p) := by
  have hnone : root? w = none ↔ ∀ p op, ¬ Outside w p op := by
    rw [root?_eq_none_iff, List.eq_nil_iff_forall_not_mem, Prod.forall]
    exact forall₂_congr fun p op => not_congr mem_outerFrom_iff
  have hsome (h : ∃ p op, Outside w p op) : ∃ q, root? w = some q := by
    obtain ⟨p, op, hout⟩ := h
    exact Option.ne_none_iff_exists'.mp fun hn => hnone.mp hn p op hout
  refine ⟨Option.map_eq_none_iff.trans hnone, fun hb => ?_, fun hs hb => ?_⟩
  · obtain ⟨q, hq⟩ := hsome (hb.imp fun p h => h.imp fun op => And.left)
    exact ⟨q.1, by rw [hq]; rfl, isGreatest_of_root? hq (isBinary_of_root? hq hb)⟩
  · obtain ⟨q, hq⟩ := hsome hs
    have hmem : Outside w q.1 q.2 := mem_outerFrom_iff.mp (mem_outerFrom_of_root? hq)
    have hun : q.2.isUnary = true := by
      have hnot : ¬ q.2.isBinary = true := fun h => hb ⟨_, _, hmem, h⟩
      rwa [q.2.isBinary_eq_not, Bool.not_eq_true', Bool.not_eq_false] at hnot
    exact ⟨q.1, by rw [hq]; rfl, isLeast_of_root? hq hun⟩

/-- After a closing bracket too many, a power between two operators with one operand takes the place
of the first of them; without the power, the first one stays. -/
theorem root?_isLoosest_of_mixed :
    let two : Token := .value (.scalar (.ofInt 2))
    let w : List Token := [.bracket .closing, .operator .rank, two, .operator .scalarPower,
      .operator .transpose, two]
    let u : List Token := [.operator .rank, .operator .transpose, two]
    (∃ p op, Outside w p op ∧ op.isBinary = true) ∧ (root? w).map Prod.fst = some 3 ∧
      IsGreatest (loosestBinary w) 3 ∧ (¬ ∃ p op, Outside u p op ∧ op.isBinary = true) ∧
      (root? u).map Prod.fst = some 0 ∧ IsLeast (outerUnary u) 0 := by
  intro two w u
  have hw : ∃ p op, Outside w p op ∧ op.isBinary = true := ⟨3, .scalarPower, ⟨rfl, rfl⟩, rfl⟩
  have hu : ¬ ∃ p op, Outside u p op ∧ op.isBinary = true := by
    rintro ⟨_ | _ | _ | p, op, ⟨hop, -⟩, hb⟩
    · obtain rfl : Operator.rank = op := Token.operator.inj (Option.some.inj hop)
      cases hb
    · obtain rfl : Operator.transpose = op := Token.operator.inj (Option.some.inj hop)
      cases hb
    · exact absurd (Option.some.inj hop) nofun
    · cases hop
  have hwroot : (root? w).map Prod.fst = some 3 := rfl
  have huroot : (root? u).map Prod.fst = some 0 := rfl
  obtain ⟨p, hp, hgreatest⟩ := (root?_isLoosest w).2.1 hw
  obtain ⟨p', hp', hleast⟩ := (root?_isLoosest u).2.2 ⟨0, .rank, rfl, rfl⟩ hu
  obtain rfl : 3 = p := Option.some.inj (hwroot.symm.trans hp)
  obtain rfl : 0 = p' := Option.some.inj (huroot.symm.trans hp')
  exact ⟨hw, hwroot, hgreatest, hu, huroot, hleast⟩

end WorkedAlgebra.Window
