import WorkedAlgebra.Proofs.Number.Rounding

/-!
# The nearest magnitude of a quotient

The magnitude that a positive quotient rounds to is found by integer arithmetic: the quotient is
brought to the scale at which its significand is full, and rounded there.
-/

namespace WorkedAlgebra.Binary64

variable {num den : ℕ}

/-! ## Scales -/

theorem zpow_mul_pow_toNat {a : ℚ} (ha : a ≠ 0) (k : ℤ) :
    a ^ k * a ^ (-k).toNat = a ^ k.toNat := by
  rw [← zpow_natCast, ← zpow_natCast, ← zpow_add₀ ha]
  congr 1
  omega

theorem cast_shiftLeft (n k : ℕ) : ((n <<< k : ℕ) : ℚ) = n * 2 ^ k := by
  rw [Nat.shiftLeft_eq]
  push_cast
  rfl

/-- **The exponent of the power of two below a quotient.** -/
theorem floorLog2_spec (hn : 0 < num) (hd : 0 < den) :
    (2 : ℚ) ^ floorLog2 num den ≤ num / den ∧ (num / den : ℚ) < 2 ^ (floorLog2 num den + 1) := by
  have hden : (0 : ℚ) < den := by exact_mod_cast hd
  have hn₁ : (2 : ℚ) ^ num.log2 ≤ num := by exact_mod_cast Nat.log2_self_le hn.ne'
  have hn₂ : (num : ℚ) < 2 ^ (num.log2 + 1) := by exact_mod_cast Nat.lt_log2_self
  have hd₁ : (2 : ℚ) ^ den.log2 ≤ den := by exact_mod_cast Nat.log2_self_le hd.ne'
  have hd₂ : (den : ℚ) < 2 ^ (den.log2 + 1) := by exact_mod_cast Nat.lt_log2_self
  have hlower : (2 : ℚ) ^ ((num.log2 : ℤ) - den.log2 - 1) ≤ num / den := by
    rw [le_div_iff₀ hden]
    calc (2 : ℚ) ^ ((num.log2 : ℤ) - den.log2 - 1) * den
        ≤ 2 ^ ((num.log2 : ℤ) - den.log2 - 1) * 2 ^ (den.log2 + 1) :=
          mul_le_mul_of_nonneg_left hd₂.le (two_zpow_pos _).le
      _ = 2 ^ num.log2 := by
          rw [← zpow_natCast, ← zpow_natCast, ← zpow_add₀ two_ne_zero]
          congr 1
          omega
      _ ≤ num := hn₁
  have hupper : (num / den : ℚ) < 2 ^ ((num.log2 : ℤ) - den.log2 + 1) := by
    rw [div_lt_iff₀ hden]
    calc (num : ℚ) < 2 ^ (num.log2 + 1) := hn₂
      _ = 2 ^ ((num.log2 : ℤ) - den.log2 + 1) * 2 ^ den.log2 := by
          rw [← zpow_natCast, ← zpow_natCast, ← zpow_add₀ two_ne_zero]
          congr 1
          omega
      _ ≤ 2 ^ ((num.log2 : ℤ) - den.log2 + 1) * den :=
          mul_le_mul_of_nonneg_left hd₁ (two_zpow_pos _).le
  have htest : ∀ k : ℤ, den <<< k.toNat ≤ num <<< (-k).toNat ↔ (2 : ℚ) ^ k ≤ num / den := by
    intro k
    have hscale := zpow_mul_pow_toNat (two_ne_zero : (2 : ℚ) ≠ 0) k
    have hpos : (0 : ℚ) < 2 ^ (-k).toNat := pow_pos two_pos _
    rw [← @Nat.cast_le ℚ, cast_shiftLeft, cast_shiftLeft, ← hscale, ← mul_assoc,
      mul_le_mul_iff_left₀ hpos, le_div_iff₀ hden, mul_comm]
  unfold floorLog2
  dsimp only
  split
  · next h => exact ⟨(htest _).mp h, hupper⟩
  · next h =>
    rw [sub_add_cancel]
    exact ⟨hlower, not_le.mp fun hle => h ((htest _).mpr hle)⟩

/-! ## Rounding to an integer -/

/-- **The integer nearest to a quotient**, and the even one of two. -/
theorem roundQuotient_spec (num : ℕ) (hd : 0 < den) :
    2 * (den * roundQuotient num den) ≤ 2 * num + den ∧
      2 * num ≤ 2 * (den * roundQuotient num den) + den ∧
      (roundQuotient num den % 2 = 1 → 2 * (den * roundQuotient num den) < 2 * num + den ∧
        2 * num < 2 * (den * roundQuotient num den) + den) := by
  have hdiv := Nat.div_add_mod num den
  have hmod := Nat.mod_lt num hd
  unfold roundQuotient
  dsimp only
  split
  · omega
  · rw [mul_add, mul_one]
    omega

/-- `n` is the nearest integer to `y`, and the even one of two. -/
structure IsRounded (y : ℚ) (n : ℕ) : Prop where
  le : n - 1 / 2 ≤ y
  ge : y ≤ n + 1 / 2
  odd : n % 2 = 1 → n - 1 / 2 < y ∧ y < n + 1 / 2

theorem isRounded_roundQuotient (hd : 0 < den) :
    IsRounded (num / den) (roundQuotient num den) := by
  obtain ⟨hle, hge, hodd⟩ := roundQuotient_spec num hd
  have hden : (0 : ℚ) < den := by exact_mod_cast hd
  have hlow : ∀ n : ℕ, (n - 1 / 2 : ℚ) * den = (2 * (den * n) - den) / 2 := fun n => by ring
  have hhigh : ∀ n : ℕ, (n + 1 / 2 : ℚ) * den = (2 * (den * n) + den) / 2 := fun n => by ring
  refine ⟨?_, ?_, fun h => ⟨?_, ?_⟩⟩
  · rw [le_div_iff₀ hden, hlow]
    have : (2 * (den * roundQuotient num den) : ℚ) ≤ 2 * num + den := by exact_mod_cast hle
    linarith
  · rw [div_le_iff₀ hden, hhigh]
    have : (2 * num : ℚ) ≤ 2 * (den * roundQuotient num den) + den := by exact_mod_cast hge
    linarith
  · rw [lt_div_iff₀ hden, hlow]
    have : (2 * (den * roundQuotient num den) : ℚ) < 2 * num + den := by exact_mod_cast (hodd h).1
    linarith
  · rw [div_lt_iff₀ hden, hhigh]
    have : (2 * num : ℚ) < 2 * (den * roundQuotient num den) + den := by exact_mod_cast (hodd h).2
    linarith

theorem IsRounded.le_of_le {y : ℚ} {n k : ℕ} (h : IsRounded y n) (hk : (k : ℚ) ≤ y) : k ≤ n := by
  have hlt : (k : ℚ) < n + 1 := by
    have := h.ge
    linarith
  exact Nat.lt_succ_iff.mp (by exact_mod_cast hlt)

theorem IsRounded.ge_of_lt {y : ℚ} {n k : ℕ} (h : IsRounded y n) (hk : y < k) : n ≤ k := by
  have hlt : (n : ℚ) < k + 1 := by
    have := h.le
    linarith
  exact Nat.lt_succ_iff.mp (by exact_mod_cast hlt)

/-! ## Rounding at a scale -/

section Scale

variable {x : ℚ} {n : ℕ} {e : ℤ}

theorem covers_of_carry (hlt : x < 2 ^ 53 * 2 ^ e) (hmin : minExponent ≤ e)
    (hn : IsRounded (x / 2 ^ e) (2 ^ 53)) :
    (⟨2 ^ 52, e + 1⟩ : Binary64).Canonical ∧ (⟨2 ^ 52, e + 1⟩ : Binary64).Covers x := by
  have hpos := two_zpow_pos e
  have hle := (le_div_iff₀ hpos).mp hn.le
  have hunit : (2 : ℚ) ^ (e + 1) = 2 ^ e * 2 := zpow_add_one₀ two_ne_zero e
  have hmin' : minExponent < e + 1 := Int.lt_add_one_of_le hmin
  refine ⟨⟨by norm_num, hmin'.le, fun _ => le_rfl⟩, ?_⟩
  rw [Covers, if_pos (by norm_num), low_of_boundary rfl hmin', high_eq, toRat, hunit]
  push_cast at hle ⊢
  constructor <;> linarith

theorem covers_of_lt (hx : 0 ≤ x) (hlt : n < 2 ^ 53) (hmin : minExponent ≤ e)
    (hfull : minExponent < e → 2 ^ 52 * 2 ^ e ≤ x) (hn : IsRounded (x / 2 ^ e) n) :
    (⟨n, e⟩ : Binary64).Canonical ∧ (⟨n, e⟩ : Binary64).Covers x := by
  have hpos := two_zpow_pos e
  have hle := (le_div_iff₀ hpos).mp hn.le
  have hge := (div_le_iff₀ hpos).mp hn.ge
  refine ⟨⟨hlt, hmin, fun h => hn.le_of_le ?_⟩, ?_⟩
  · rw [le_div_iff₀ hpos]
    exact_mod_cast hfull h
  · have hhigh : (⟨n, e⟩ : Binary64).high = (n + 1 / 2) * 2 ^ e := by
      rw [high_eq, toRat]
      ring
    by_cases hboundary : n = 2 ^ 52 ∧ minExponent < e
    · -- the lower end is nearer, but no smaller number has this scale
      obtain ⟨rfl, he⟩ := hboundary
      have := hfull he
      rw [Covers, if_pos (by norm_num), hhigh, low_of_boundary rfl he, toRat]
      push_cast at hge ⊢
      constructor <;> linarith
    · rcases Nat.eq_zero_or_pos n with rfl | h0
      · rw [Covers, if_pos (Nat.zero_mod 2), low_of_zero rfl, hhigh]
        exact ⟨hx, hge⟩
      · have hlow : (⟨n, e⟩ : Binary64).low = (n - 1 / 2) * 2 ^ e := by
          rw [low_of_pos h0 hboundary, toRat]
          ring
        rw [Covers, hlow, hhigh]
        split
        · exact ⟨hle, hge⟩
        · next hodd =>
          obtain ⟨hlow, hhigh⟩ := hn.odd (Nat.mod_two_ne_zero.mp hodd)
          exact ⟨(lt_div_iff₀ hpos).mp hlow, (div_lt_iff₀ hpos).mp hhigh⟩

theorem covers_normalize (hx : 0 ≤ x) (hlt : x < 2 ^ 53 * 2 ^ e) (hmin : minExponent ≤ e)
    (hfull : minExponent < e → 2 ^ 52 * 2 ^ e ≤ x) (hn : IsRounded (x / 2 ^ e) n) :
    (normalize n e).Canonical ∧ (normalize n e).Covers x := by
  by_cases hcarry : n = 2 ^ 53
  · have hb : normalize n e = ⟨2 ^ 52, e + 1⟩ := if_pos hcarry
    rw [hb]
    exact covers_of_carry hlt hmin (hcarry ▸ hn)
  · have hb : normalize n e = ⟨n, e⟩ := if_neg hcarry
    have hle : n ≤ 2 ^ 53 := hn.ge_of_lt (by
      rw [div_lt_iff₀ (two_zpow_pos e)]
      exact_mod_cast hlt)
    rw [hb]
    exact covers_of_lt hx (lt_of_le_of_ne hle hcarry) hmin hfull hn

end Scale

theorem exists_nearest (hn : 0 < num) (hd : 0 < den) : ∃ b : Binary64, b.Canonical ∧
    b.Covers (num / den) ∧ nearest num den = if b.exponent ≤ maxExponent then some b else none := by
  obtain ⟨hle, hlt⟩ := floorLog2_spec hn hd
  have hden : (0 : ℚ) < den := by exact_mod_cast hd
  set e := exponentOf num den with hexponent
  have he : e = max (floorLog2 num den - 52) minExponent := hexponent
  have hrounded : IsRounded (num / den / 2 ^ e)
      (roundQuotient (num <<< (-e).toNat) (den <<< e.toNat)) := by
    have hscaled : ((num <<< (-e).toNat : ℕ) / (den <<< e.toNat : ℕ) : ℚ) = num / den / 2 ^ e := by
      rw [cast_shiftLeft, cast_shiftLeft, ← zpow_mul_pow_toNat two_ne_zero e]
      field_simp
    rw [← hscaled]
    refine isRounded_roundQuotient ?_
    rw [Nat.shiftLeft_eq]
    positivity
  have hbelow : (num / den : ℚ) < 2 ^ 53 * 2 ^ e := by
    rw [← zpow_natCast, ← zpow_add₀ two_ne_zero]
    exact lt_of_lt_of_le hlt (zpow_le_zpow_right₀ one_le_two (by omega))
  have hfull : minExponent < e → (2 ^ 52 * 2 ^ e : ℚ) ≤ num / den := by
    intro h
    rw [← zpow_natCast, ← zpow_add₀ two_ne_zero]
    exact (zpow_le_zpow_right₀ one_le_two (by omega)).trans hle
  have hnonneg : (0 : ℚ) ≤ num / den := div_nonneg num.cast_nonneg hden.le
  obtain ⟨hcanonical, hcovers⟩ := covers_normalize hnonneg hbelow (by omega) hfull hrounded
  exact ⟨_, hcanonical, hcovers, rfl⟩

example : nearest 1 3 = some ⟨6004799503160661, -54⟩ := by decide +kernel

end WorkedAlgebra.Binary64
