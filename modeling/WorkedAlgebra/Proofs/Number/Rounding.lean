import Mathlib.Algebra.Order.Field.Power
import Mathlib.Algebra.Order.Ring.Abs
import Mathlib.Tactic.FieldSimp
import Mathlib.Tactic.Linarith
import Mathlib.Tactic.NormNum
import Mathlib.Tactic.Ring
import WorkedAlgebra.Number.Decimal

/-!
# Rounding to binary64

The numbers of binary64 with their exponents unbounded above, and what it is to round to the nearest
of them. A number that rounds to `2 ^ 1024` or beyond rounds to infinity in binary64.
-/

namespace WorkedAlgebra

namespace Binary64

/-! ## Magnitudes -/

def toRat (b : Binary64) : ℚ :=
  b.significand * 2 ^ b.exponent

/-- A significand of at most 53 bits, and of exactly as many above the subnormal numbers. -/
structure Canonical (b : Binary64) : Prop where
  significand_lt : b.significand < 2 ^ 53
  minExponent_le : minExponent ≤ b.exponent
  le_significand : minExponent < b.exponent → 2 ^ 52 ≤ b.significand

variable {b c : Binary64}

theorem toRat_nonneg (b : Binary64) : 0 ≤ b.toRat := by
  unfold toRat
  positivity

theorem two_zpow_pos (k : ℤ) : (0 : ℚ) < 2 ^ k :=
  zpow_pos two_pos k

theorem Canonical.toRat_le_of_exponent_lt (hc : c.Canonical) {e : ℤ} (h : c.exponent < e) :
    c.toRat ≤ (2 ^ 52 - 1 / 2) * 2 ^ e := by
  have hs : (c.significand : ℚ) ≤ 2 ^ 53 - 1 := by
    have hlt : (c.significand : ℚ) + 1 ≤ 2 ^ 53 := by exact_mod_cast hc.significand_lt
    linarith
  have hpow : (2 : ℚ) ^ c.exponent ≤ 2 ^ (e - 1) :=
    zpow_le_zpow_right₀ one_le_two (by omega)
  have hhalf : (2 : ℚ) ^ (e - 1) = 2 ^ e / 2 := zpow_sub_one₀ two_ne_zero e
  calc c.toRat ≤ (2 ^ 53 - 1) * 2 ^ (e - 1) :=
        mul_le_mul hs hpow (two_zpow_pos _).le (by norm_num)
    _ = (2 ^ 52 - 1 / 2) * 2 ^ e := by rw [hhalf]; ring

theorem Canonical.le_toRat (hb : b.Canonical) (h : minExponent < b.exponent) :
    2 ^ 52 * 2 ^ b.exponent ≤ b.toRat := by
  have hs : (2 : ℚ) ^ 52 ≤ b.significand := by exact_mod_cast hb.le_significand h
  exact mul_le_mul_of_nonneg_right hs (two_zpow_pos _).le

theorem exists_toRat_eq {e : ℤ} (h : e ≤ c.exponent) : ∃ n : ℕ, c.toRat = n * 2 ^ e := by
  obtain ⟨k, hk⟩ := Int.le.dest h
  refine ⟨c.significand * 2 ^ k, ?_⟩
  rw [toRat, ← hk, zpow_add₀ two_ne_zero, zpow_natCast]
  push_cast
  ring

theorem Canonical.toRat_lt_of_exponent_lt (hb : b.Canonical) (hc : c.Canonical)
    (h : b.exponent < c.exponent) : b.toRat < c.toRat := by
  have hpos := two_zpow_pos c.exponent
  have hle := hb.toRat_le_of_exponent_lt h
  have hfull := hc.le_toRat (lt_of_le_of_lt hb.minExponent_le h)
  linarith

/-- **Every number is written once.** -/
theorem Canonical.eq_of_toRat_eq (hb : b.Canonical) (hc : c.Canonical) (h : b.toRat = c.toRat) :
    b = c := by
  rcases lt_trichotomy b.exponent c.exponent with he | he | he
  · exact absurd h (hb.toRat_lt_of_exponent_lt hc he).ne
  · have hs : b.significand = c.significand := by
      unfold toRat at h
      rw [he] at h
      exact_mod_cast mul_right_cancel₀ (two_zpow_pos c.exponent).ne' h
    cases b
    cases c
    exact congrArg₂ Binary64.mk hs he
  · exact absurd h (hc.toRat_lt_of_exponent_lt hb he).ne'

/-! ## Gaps -/

theorem add_zpow_le_of_lt {e : ℤ} (hb : e ≤ b.exponent) (hc : e ≤ c.exponent)
    (h : b.toRat < c.toRat) : b.toRat + 2 ^ e ≤ c.toRat := by
  have hpos := two_zpow_pos e
  obtain ⟨n, hn⟩ := exists_toRat_eq hb
  obtain ⟨k, hk⟩ := exists_toRat_eq hc
  rw [hn, hk] at h ⊢
  have hlt : n < k := by exact_mod_cast lt_of_mul_lt_mul_right h hpos.le
  have hle : (n + 1 : ℚ) ≤ k := by exact_mod_cast hlt
  have hmul := mul_le_mul_of_nonneg_right hle hpos.le
  linarith

/-- **The next magnitude is one unit in the last place above.** -/
theorem Canonical.succ_le (hb : b.Canonical) (hc : c.Canonical) (h : b.toRat < c.toRat) :
    b.toRat + 2 ^ b.exponent ≤ c.toRat := by
  rcases le_or_gt b.exponent c.exponent with he | he
  · exact add_zpow_le_of_lt le_rfl he h
  · exact absurd h (hc.toRat_lt_of_exponent_lt hb he).asymm

/-- The lower end of the numbers that round to `b`. -/
def low (b : Binary64) : ℚ :=
  b.lowQuarters / 4 * 2 ^ b.exponent

def high (b : Binary64) : ℚ :=
  b.highQuarters / 4 * 2 ^ b.exponent

theorem high_eq (b : Binary64) : b.high = b.toRat + 2 ^ b.exponent / 2 := by
  unfold high highQuarters toRat
  push_cast
  ring

theorem low_of_boundary (h : b.significand = 2 ^ 52) (he : minExponent < b.exponent) :
    b.low = b.toRat - 2 ^ b.exponent / 4 := by
  have hquarters : b.lowQuarters = 4 * 2 ^ 52 - 1 := by
    unfold lowQuarters
    rw [if_pos ⟨h, he⟩, h]
  rw [low, hquarters, toRat, h]
  norm_num
  ring

theorem low_of_pos (h : 0 < b.significand)
    (hb : ¬ (b.significand = 2 ^ 52 ∧ minExponent < b.exponent)) :
    b.low = b.toRat - 2 ^ b.exponent / 2 := by
  have hquarters : b.lowQuarters = 4 * b.significand - 2 := if_neg hb
  have hle : 2 ≤ 4 * b.significand := by omega
  rw [low, hquarters, toRat, Nat.cast_sub hle]
  push_cast
  ring

theorem low_of_zero (h : b.significand = 0) : b.low = 0 := by
  have hquarters : b.lowQuarters = 4 * b.significand - 2 :=
    if_neg fun hb => absurd (h.symm.trans hb.1) (by decide)
  rw [low, hquarters, h]
  norm_num

theorem toRat_of_zero (h : b.significand = 0) : b.toRat = 0 := by
  rw [toRat, h]
  norm_num

theorem unit_le_toRat (h : 0 < b.significand) : 2 ^ b.exponent ≤ b.toRat := by
  have hs : (1 : ℚ) ≤ b.significand := by exact_mod_cast h
  have hmul := mul_le_mul_of_nonneg_right hs (two_zpow_pos b.exponent).le
  rwa [one_mul] at hmul

theorem low_bounds (h : 0 < b.significand) :
    b.toRat - 2 ^ b.exponent / 2 ≤ b.low ∧ b.low ≤ b.toRat - 2 ^ b.exponent / 4 := by
  have hpos := two_zpow_pos b.exponent
  by_cases hb : b.significand = 2 ^ 52 ∧ minExponent < b.exponent
  · rw [low_of_boundary hb.1 hb.2]
    constructor <;> linarith
  · rw [low_of_pos h hb]
    constructor <;> linarith

theorem low_lt_toRat (h : 0 < b.significand) : b.low < b.toRat := by
  have hpos := two_zpow_pos b.exponent
  have := (low_bounds h).2
  linarith

theorem low_le_toRat (b : Binary64) : b.low ≤ b.toRat := by
  rcases Nat.eq_zero_or_pos b.significand with h | h
  · rw [toRat_of_zero h, low_of_zero h]
  · exact (low_lt_toRat h).le

theorem toRat_le_low (b : Binary64) : b.toRat ≤ 2 * b.low := by
  rcases Nat.eq_zero_or_pos b.significand with h | h
  · rw [toRat_of_zero h, low_of_zero h, mul_zero]
  · have := (low_bounds h).1
    have := unit_le_toRat h
    linarith

/-- **The lower end of a magnitude is no nearer to the one before.** -/
theorem Canonical.add_le_low (hb : b.Canonical) (hc : c.Canonical) (h : c.toRat < b.toRat) :
    c.toRat + b.toRat ≤ 2 * b.low := by
  have hpos := two_zpow_pos b.exponent
  have hs : 0 < b.significand := by
    by_contra hs
    rw [toRat_of_zero (b := b) (Nat.eq_zero_of_not_pos hs)] at h
    exact absurd c.toRat_nonneg (not_le.mpr h)
  rcases le_or_gt b.exponent c.exponent with he | he
  · -- on the grid of `b`, the one before is a whole unit away
    have := add_zpow_le_of_lt he le_rfl h
    have := (low_bounds hs).1
    linarith
  · -- below a power of two the spacing is half as wide
    have hmin := lt_of_le_of_lt hc.minExponent_le he
    have hle := hc.toRat_le_of_exponent_lt he
    by_cases hboundary : b.significand = 2 ^ 52
    · rw [low_of_boundary hboundary hmin]
      have hfull := hb.le_toRat hmin
      linarith
    · have hlt : 2 ^ 52 < b.significand :=
        lt_of_le_of_ne (hb.le_significand hmin) (Ne.symm hboundary)
      have hfull : (2 ^ 52 + 1 : ℚ) ≤ b.significand := by exact_mod_cast hlt
      have hmul := mul_le_mul_of_nonneg_right hfull hpos.le
      rw [← toRat] at hmul
      rw [low_of_pos hs fun h => hboundary h.1]
      linarith

end Binary64

/-! ## Numbers -/

/-- A number of binary64, its exponent unbounded above. -/
def IsBinary64 (y : ℚ) : Prop :=
  ∃ b : Binary64, b.Canonical ∧ |y| = b.toRat

def IsEvenBinary64 (y : ℚ) : Prop :=
  ∃ b : Binary64, b.Canonical ∧ |y| = b.toRat ∧ b.significand % 2 = 0

/-- **Rounding to the nearest number of binary64**, and to the even one of two equally near. -/
structure RoundsTo (x y : ℚ) : Prop where
  isBinary64 : IsBinary64 y
  nearest : ∀ z, IsBinary64 z → |x - y| ≤ |x - z|
  even : ∀ z, IsBinary64 z → z ≠ y → |x - z| = |x - y| → IsEvenBinary64 y

theorem isBinary64_toRat {b : Binary64} (hb : b.Canonical) : IsBinary64 b.toRat :=
  ⟨b, hb, abs_of_nonneg b.toRat_nonneg⟩

theorem isBinary64_neg {y : ℚ} : IsBinary64 (-y) ↔ IsBinary64 y := by
  unfold IsBinary64
  rw [abs_neg]

theorem canonical_zero : (⟨0, Binary64.minExponent⟩ : Binary64).Canonical :=
  ⟨by norm_num, le_rfl, fun h => absurd h (lt_irrefl _)⟩

theorem isBinary64_zero : IsBinary64 0 :=
  ⟨_, canonical_zero, by rw [abs_zero, Binary64.toRat_of_zero rfl]⟩

theorem RoundsTo.neg {x y : ℚ} (h : RoundsTo x y) : RoundsTo (-x) (-y) := by
  have hdist : ∀ z : ℚ, |-x - z| = |x - -z| := fun z => by
    rw [← abs_neg]
    congr 1
    ring
  refine ⟨isBinary64_neg.mpr h.isBinary64, fun z hz => ?_, fun z hz hne heq => ?_⟩
  · rw [hdist, hdist, neg_neg]
    exact h.nearest _ (isBinary64_neg.mpr hz)
  · rw [hdist, hdist, neg_neg] at heq
    have hne' : -z ≠ y := fun hzy => hne (neg_eq_iff_eq_neg.mp hzy)
    obtain ⟨b, hb, hby, heven⟩ := h.even _ (isBinary64_neg.mpr hz) hne' heq
    exact ⟨b, hb, by rwa [abs_neg], heven⟩

/-! ## Uniqueness -/

theorem Binary64.Canonical.exists_between {b c : Binary64} (hb : b.Canonical) (hc : c.Canonical)
    (hbe : b.significand % 2 = 0) (hce : c.significand % 2 = 0) (h : b.toRat < c.toRat) :
    ∃ d : Binary64, d.Canonical ∧ b.toRat < d.toRat ∧ d.toRat < c.toRat := by
  have hpos := two_zpow_pos b.exponent
  have hlt : b.significand + 1 < 2 ^ 53 := by
    have := hb.significand_lt
    omega
  let d : Binary64 := ⟨b.significand + 1, b.exponent⟩
  have hd : d.Canonical :=
    ⟨hlt, hb.minExponent_le, fun h => (hb.le_significand h).trans (Nat.le_succ _)⟩
  have hval : d.toRat = b.toRat + 2 ^ b.exponent := by
    simp only [d, toRat]
    push_cast
    ring
  refine ⟨d, hd, by rw [hval]; linarith, lt_of_le_of_ne (hval ▸ hb.succ_le hc h) fun heq => ?_⟩
  have hdc : b.significand + 1 = c.significand :=
    congrArg significand (hd.eq_of_toRat_eq hc heq)
  omega

theorem IsEvenBinary64.exists_between {y z : ℚ} (hy : IsEvenBinary64 y) (hz : IsEvenBinary64 z)
    (h : y < z) : ∃ w, IsBinary64 w ∧ y < w ∧ w < z := by
  obtain ⟨b, hb, hyb, hbe⟩ := hy
  obtain ⟨c, hc, hzc, hce⟩ := hz
  rcases le_or_gt 0 y with hy | hy
  · rw [abs_of_nonneg hy] at hyb
    rw [abs_of_pos (lt_of_le_of_lt hy h)] at hzc
    obtain ⟨d, hd, hbd, hdc⟩ := hb.exists_between hc hbe hce (hyb ▸ hzc ▸ h)
    exact ⟨_, isBinary64_toRat hd, hyb ▸ hbd, hzc ▸ hdc⟩
  · rcases le_or_gt z 0 with hz | hz
    · rw [abs_of_neg hy] at hyb
      rw [abs_of_nonpos hz] at hzc
      obtain ⟨d, hd, hcd, hdb⟩ := hc.exists_between hb hce hbe (by linarith)
      exact ⟨_, isBinary64_neg.mpr (isBinary64_toRat hd), by linarith, by linarith⟩
    · exact ⟨0, isBinary64_zero, hy, hz⟩

theorem abs_sub_le_iff_mul_nonneg {x y z : ℚ} :
    |x - y| ≤ |x - z| ↔ 0 ≤ (y - z) * (2 * x - y - z) := by
  have hmul : (x - z) ^ 2 - (x - y) ^ 2 = (y - z) * (2 * x - y - z) := by ring
  rw [← sq_le_sq, ← sub_nonneg, hmul]

theorem abs_sub_lt_iff_mul_pos {x y z : ℚ} :
    |x - y| < |x - z| ↔ 0 < (y - z) * (2 * x - y - z) := by
  have hmul : (x - z) ^ 2 - (x - y) ^ 2 = (y - z) * (2 * x - y - z) := by ring
  rw [← sq_lt_sq, ← sub_pos, hmul]

/-- **No number rounds to two numbers.** Of two equally near ones both were even, and there would be
a nearer one between them. -/
theorem RoundsTo.unique {x y z : ℚ} (hy : RoundsTo x y) (hz : RoundsTo x z) : y = z := by
  have hle : ∀ {y z : ℚ}, RoundsTo x y → RoundsTo x z → ¬ y < z := by
    intro y z hy hz hlt
    have heq : |x - y| = |x - z| :=
      le_antisymm (hy.nearest z hz.isBinary64) (hz.nearest y hy.isBinary64)
    have hye := hy.even z hz.isBinary64 hlt.ne' heq.symm
    have hze := hz.even y hy.isBinary64 hlt.ne heq
    obtain ⟨w, hw, hyw, hwz⟩ := hye.exists_between hze hlt
    have hmid : 2 * x - y - z = 0 := by
      have h₁ := abs_sub_le_iff_mul_nonneg.mp heq.le
      have h₂ := abs_sub_le_iff_mul_nonneg.mp heq.ge
      have hzero : (y - z) * (2 * x - y - z) = 0 := by linarith
      exact (mul_eq_zero.mp hzero).resolve_left (sub_neg.mpr hlt).ne
    have hw := abs_sub_le_iff_mul_nonneg.mp (hy.nearest w hw)
    exact absurd hw (not_le.mpr (mul_neg_of_neg_of_pos (by linarith) (by linarith)))
  exact le_antisymm (not_lt.mp (hle hz hy)) (not_lt.mp (hle hy hz))

/-! ## Numbers between the ends of a magnitude -/

namespace Binary64

variable {b : Binary64} {x : ℚ}

/-- `x` is between the ends of `b`, which belong to `b` exactly when its significand is even. -/
def Covers (b : Binary64) (x : ℚ) : Prop :=
  if b.significand % 2 = 0 then b.low ≤ x ∧ x ≤ b.high else b.low < x ∧ x < b.high

theorem Covers.le (h : b.Covers x) : b.low ≤ x ∧ x ≤ b.high := by
  unfold Covers at h
  split at h
  · exact h
  · exact ⟨h.1.le, h.2.le⟩

theorem Covers.lt (h : b.Covers x) (hodd : ¬ b.significand % 2 = 0) : b.low < x ∧ x < b.high := by
  unfold Covers at h
  rwa [if_neg hodd] at h

theorem covers_toRat (b : Binary64) : b.Covers b.toRat := by
  have hpos := two_zpow_pos b.exponent
  have hhigh : b.toRat < b.high := by
    rw [high_eq]
    linarith
  unfold Covers
  split
  · exact ⟨b.low_le_toRat, hhigh.le⟩
  · next hodd => exact ⟨low_lt_toRat (by omega), hhigh⟩

theorem Canonical.add_le_low_of_lt (hb : b.Canonical) {z : ℚ} (hz : IsBinary64 z)
    (h : z < b.toRat) : z + b.toRat ≤ 2 * b.low := by
  obtain ⟨c, hc, hz⟩ := hz
  rcases le_or_gt 0 z with h0 | h0
  · rw [abs_of_nonneg h0] at hz
    rw [hz] at h ⊢
    exact hb.add_le_low hc h
  · have := b.toRat_le_low
    linarith

theorem Canonical.high_le_add_of_lt (hb : b.Canonical) {z : ℚ} (hz : IsBinary64 z)
    (h : b.toRat < z) : 2 * b.high ≤ b.toRat + z := by
  obtain ⟨c, hc, hz⟩ := hz
  rw [abs_of_pos (lt_of_le_of_lt b.toRat_nonneg h)] at hz
  have := hb.succ_le hc (hz ▸ h)
  rw [high_eq]
  linarith

/-- **A magnitude is what the numbers between its ends round to.** -/
theorem Covers.roundsTo (hb : b.Canonical) (h : b.Covers x) : RoundsTo x b.toRat := by
  obtain ⟨hlow, hhigh⟩ := h.le
  refine ⟨isBinary64_toRat hb, fun z hz => ?_, fun z hz hne heq => ?_⟩
  · rw [abs_sub_le_iff_mul_nonneg]
    rcases lt_trichotomy z b.toRat with hlt | rfl | hlt
    · have := hb.add_le_low_of_lt hz hlt
      exact mul_nonneg (by linarith) (by linarith)
    · simp
    · have := hb.high_le_add_of_lt hz hlt
      exact mul_nonneg_of_nonpos_of_nonpos (by linarith) (by linarith)
  · refine ⟨b, hb, abs_of_nonneg b.toRat_nonneg, ?_⟩
    by_contra hodd
    obtain ⟨hlow, hhigh⟩ := h.lt hodd
    refine absurd heq.symm (ne_of_lt (abs_sub_lt_iff_mul_pos.mpr ?_))
    rcases lt_or_gt_of_ne hne with hlt | hlt
    · have := hb.add_le_low_of_lt hz hlt
      exact mul_pos (by linarith) (by linarith)
    · have := hb.high_le_add_of_lt hz hlt
      exact mul_pos_of_neg_of_neg (by linarith) (by linarith)

end Binary64
end WorkedAlgebra
