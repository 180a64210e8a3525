import Mathlib.Tactic.LinearCombination
import WorkedAlgebra.Proofs.Number.Grammar
import WorkedAlgebra.Proofs.Number.Nearest

/-!
# Decimal texts are read back

The decimal text of a number denotes a number that rounds to the same number of binary64: the
decimal that is written lies between the ends of the magnitude that it is written for.
-/

namespace WorkedAlgebra

def Decimal.toRat (d : Decimal) : ℚ :=
  d.coefficient * 10 ^ d.exponent

namespace Binary64

/-! ## Decimals between the ends of a magnitude -/

/-- What numbers are multiplied by to compare them on the common scale of `b` and `10 ^ k`. -/
def commonScale (b : Binary64) (k : ℤ) : ℚ :=
  4 * 2 ^ (-b.exponent).toNat * 10 ^ (-k).toNat

theorem commonScale_pos (b : Binary64) (k : ℤ) : 0 < b.commonScale k := by
  unfold commonScale
  positivity

theorem cast_scaleQuarters (b : Binary64) (k : ℤ) (quarters : ℕ) :
    (b.scaleQuarters k quarters : ℚ) = quarters / 4 * 2 ^ b.exponent * b.commonScale k := by
  have hscale := zpow_mul_pow_toNat (two_ne_zero : (2 : ℚ) ≠ 0) b.exponent
  rw [scaleQuarters, Nat.cast_mul, cast_shiftLeft, Nat.pow_eq, ← hscale, commonScale]
  push_cast
  ring

theorem cast_scaledStep (b : Binary64) (k : ℤ) :
    (b.scaledStep k : ℚ) = 10 ^ k * b.commonScale k := by
  have hscale := zpow_mul_pow_toNat (a := (10 : ℚ)) (by norm_num) k
  rw [scaledStep, Nat.cast_mul, cast_shiftLeft, Nat.pow_eq, commonScale]
  push_cast
  rw [← hscale]
  ring

/-- **The test that a decimal lies between the ends of a magnitude.** -/
theorem reads_iff {b : Binary64} {d : Decimal} : b.reads d = true ↔ b.Covers d.toRat := by
  have hpos := b.commonScale_pos d.exponent
  have hdecimal : ((d.coefficient * b.scaledStep d.exponent : ℕ) : ℚ) =
      d.toRat * b.commonScale d.exponent := by
    rw [Nat.cast_mul, cast_scaledStep, Decimal.toRat]
    ring
  have hlow : (b.scaleQuarters d.exponent b.lowQuarters : ℚ) =
      b.low * b.commonScale d.exponent := cast_scaleQuarters _ _ _
  have hhigh : (b.scaleQuarters d.exponent b.highQuarters : ℚ) =
      b.high * b.commonScale d.exponent := cast_scaleQuarters _ _ _
  unfold reads Covers
  dsimp only
  split
  · rw [Bool.and_eq_true, decide_eq_true_iff, decide_eq_true_iff, ← @Nat.cast_le ℚ,
      ← @Nat.cast_le ℚ, hdecimal, hlow, hhigh, mul_le_mul_iff_left₀ hpos,
      mul_le_mul_iff_left₀ hpos]
  · rw [Bool.and_eq_true, decide_eq_true_iff, decide_eq_true_iff, ← @Nat.cast_lt ℚ,
      ← @Nat.cast_lt ℚ, hdecimal, hlow, hhigh, mul_lt_mul_iff_left₀ hpos,
      mul_lt_mul_iff_left₀ hpos]

theorem toRat_exact (b : Binary64) : b.exact.toRat = b.toRat := by
  have htwo := zpow_mul_pow_toNat (two_ne_zero : (2 : ℚ) ≠ 0) b.exponent
  have hfive := zpow_mul_pow_toNat (a := (5 : ℚ)) (by norm_num) b.exponent
  unfold exact Decimal.toRat toRat
  split
  · next h =>
    have hneg : (-b.exponent).toNat = 0 := by omega
    rw [hneg] at htwo
    rw [cast_shiftLeft, ← htwo]
    norm_num
  · next h =>
    -- the powers of five cancel, and those of two are left
    have hpos : b.exponent.toNat = 0 := by omega
    have hten : (10 : ℚ) ^ b.exponent = 2 ^ b.exponent * 5 ^ b.exponent := by
      rw [← mul_zpow]
      norm_num
    rw [hpos, pow_zero] at hfive
    rw [Nat.cast_mul, Nat.pow_eq, hten]
    push_cast
    linear_combination (b.significand * 2 ^ b.exponent : ℚ) * hfive

/-- **The decimal that is written for a magnitude lies between its ends.** -/
theorem covers_shortest (b : Binary64) : b.Covers b.shortest.toRat := by
  unfold shortest
  cases h : (List.range 20).findSome? fun (i : Nat) => b.onGrid? (b.topExponent - i) with
  | none =>
    rw [Option.getD_none, toRat_exact]
    exact b.covers_toRat
  | some d =>
    obtain ⟨i, -, hi⟩ := List.exists_of_findSome?_eq_some h
    exact reads_iff.mp (List.find?_some hi)

end Binary64

/-! ## The text of a decimal -/

namespace Decimal

theorem isDigit_of_mem_replicate {n : ℕ} {c : Char} (h : c ∈ List.replicate n '0') : c.isDigit := by
  rw [List.eq_of_mem_replicate h]
  rfl

theorem valueOf_replicate (n : ℕ) : Numeral.valueOf (List.replicate n '0') = 0 := by
  induction n with
  | zero => rfl
  | succ n ih =>
    rw [List.replicate_succ', Numeral.valueOf_concat rfl, ih]
    rfl

/-- **The two layouts of a decimal**: digits, or digits with a point among them. -/
inductive Layout (d : Decimal) : List Char → Prop
  | whole {cs : List Char} (ne_nil : cs ≠ []) (digits : ∀ c ∈ cs, c.isDigit)
    (nonneg : 0 ≤ d.exponent)
    (value : Numeral.valueOf cs = d.coefficient * 10 ^ d.exponent.toNat) : Layout d cs
  | pointed {whole places : List Char} (ne_nil : whole ≠ [])
    (digits : ∀ c ∈ whole ++ places, c.isDigit)
    (value : Numeral.valueOf (whole ++ places) = d.coefficient)
    (length : d.exponent = -places.length) : Layout d (whole ++ '.' :: places)

theorem layout_digits (d : Decimal) : Layout d d.digits := by
  have hdigit : ∀ c ∈ Nat.toDigits 10 d.coefficient, c.isDigit :=
    fun c => Numeral.isDigit_of_mem_toDigits
  have hvalue := (Numeral.digits_iff.mp (Numeral.digits_toDigits d.coefficient)).2
  have hne : Nat.toDigits 10 d.coefficient ≠ [] := Nat.toDigits_ne_nil
  have hzeros : ∀ n, ∀ c ∈ List.replicate n '0', c.isDigit := fun n c => isDigit_of_mem_replicate
  unfold digits
  dsimp only
  generalize Nat.toDigits 10 d.coefficient = ds at *
  split
  · next h =>
    refine .whole (List.append_ne_nil_of_left_ne_nil hne _)
      (List.forall_mem_append.mpr ⟨hdigit, hzeros _⟩) (by omega) ?_
    rw [Numeral.valueOf_append (hzeros _), valueOf_replicate, hvalue, List.length_replicate,
      add_zero]
  · next h =>
    split
    · next hlt =>
      -- the point stands among the digits
      have hsplit := List.take_append_drop (ds.length - (-d.exponent).toNat) ds
      refine .pointed ?_ (hsplit.symm ▸ hdigit) (hsplit.symm ▸ hvalue) ?_
      · exact List.ne_nil_of_length_pos (by rw [List.length_take]; omega)
      · rw [List.length_drop]
        omega
    · next hle =>
      -- zeros stand between the point and the digits
      have hfirst : ['0'] ++ (List.replicate ((-d.exponent).toNat - ds.length) '0' ++ ds) =
          List.replicate ((-d.exponent).toNat - ds.length + 1) '0' ++ ds := rfl
      refine .pointed (List.cons_ne_nil '0' []) ?_ ?_ ?_
      · rw [hfirst]
        exact List.forall_mem_append.mpr ⟨hzeros _, hdigit⟩
      · rw [hfirst, Numeral.valueOf_append hdigit, valueOf_replicate, hvalue, zero_mul, zero_add]
      · rw [List.length_append, List.length_replicate]
        omega

theorem Layout.mem {d : Decimal} {cs : List Char} (h : Layout d cs) {c : Char} (hc : c ∈ cs) :
    c.isDigit ∨ c = '.' := by
  cases h with
  | whole ne_nil digits nonneg value => exact .inl (digits c hc)
  | pointed ne_nil digits value length =>
    rw [List.mem_append, List.mem_cons, or_left_comm, ← List.mem_append] at hc
    exact hc.symm.imp_left (digits c)

theorem Layout.denotes {d : Decimal} {cs : List Char} (h : Layout d cs) {s : List Char} {e : ℤ}
    (hs : Numeral.Sign s e) : Numeral.Denotes (s ++ cs) (e * d.toRat) := by
  unfold toRat
  cases h with
  | whole ne_nil digits nonneg value =>
    have hdenotes := Numeral.Denotes.integer (.mk hs (Numeral.digits_of_forall ne_nil digits))
    rw [value] at hdenotes
    push_cast at hdenotes
    rwa [← zpow_natCast, Int.toNat_of_nonneg nonneg] at hdenotes
  | @pointed whole places ne_nil digits value length =>
    obtain ⟨hw, hp⟩ := List.forall_mem_append.mp digits
    have hdenotes := Numeral.Denotes.pointed hs (.digits (Numeral.digits_of_forall ne_nil hw))
      (Numeral.places_iff.mpr ⟨hp, rfl⟩) (List.append_ne_nil_of_left_ne_nil ne_nil places)
    have hsum : (d.coefficient * 10 ^ d.exponent : ℚ) =
        Numeral.valueOf whole + Numeral.valueOf places / 10 ^ places.length := by
      rw [← value, length, zpow_neg, zpow_natCast, Numeral.valueOf_append hp]
      push_cast
      field_simp
    rwa [hsum, ← List.append_assoc]

end Decimal

/-! ## The text of a magnitude -/

namespace Binary64

theorem minus_not_mem_digits (b : Binary64) : '-' ∉ b.digits := by
  unfold digits
  split
  · decide
  · intro h
    rcases (Decimal.layout_digits _).mem h with h | h
    · exact absurd h (by decide)
    · exact absurd h (by decide)

/-- **The text of a magnitude denotes a number that rounds to it**, and a sign before it applies. -/
theorem exists_denotes_digits {b : Binary64} (hb : b.Canonical) {s : List Char} {e : ℤ}
    (hs : Numeral.Sign s e) :
    ∃ x, RoundsTo x b.toRat ∧ Numeral.Denotes (s ++ b.digits) (e * x) := by
  by_cases h : b.significand = 0
  · have hzero := Numeral.Denotes.integer (.mk hs (.first (c := '0') rfl))
    refine ⟨b.toRat, b.covers_toRat.roundsTo hb, ?_⟩
    rw [digits, if_pos h, toRat_of_zero h]
    simpa [Numeral.digit] using hzero
  · refine ⟨b.shortest.toRat, b.covers_shortest.roundsTo hb, ?_⟩
    rw [digits, if_neg h]
    exact b.shortest.layout_digits.denotes hs

/-- The least number that binary64 has no room for: `2 ^ 1024`. -/
def limit : ℚ :=
  2 ^ (maxExponent + precision)

theorem limit_eq : limit = 2 ^ 52 * 2 ^ (maxExponent + 1) := by
  rw [← zpow_natCast, ← zpow_add₀ two_ne_zero]
  rfl

theorem Canonical.toRat_lt_limit {b : Binary64} (hb : b.Canonical) (h : b.exponent ≤ maxExponent) :
    b.toRat < limit := by
  have hle := hb.toRat_le_of_exponent_lt (Int.lt_add_one_of_le h)
  calc b.toRat ≤ (2 ^ 52 - 1 / 2) * 2 ^ (maxExponent + 1) := hle
    _ < 2 ^ 52 * 2 ^ (maxExponent + 1) :=
        mul_lt_mul_of_pos_right (by norm_num) (two_zpow_pos _)
    _ = limit := limit_eq.symm

end Binary64

/-! ## Signs -/

theorem natAbs_num_div_den (q : ℚ) : (q.num.natAbs / q.den : ℚ) = |q| := by
  rw [Rat.abs_def, Rat.divInt_eq_div, Int.cast_natCast, Int.cast_natCast]

theorem minus_not_mem_fractionText {q : ℚ} (h : ¬ q < 0) :
    '-' ∉ (Numeral.fractionText q).toList := by
  have hminus : ∀ n : ℕ, '-' ∉ Nat.toDigits 10 n := fun n hc =>
    absurd (Numeral.isDigit_of_mem_toDigits hc) (by decide)
  rw [Numeral.toList_fractionText, Numeral.toList_integerText, if_neg (Rat.num_neg.not.mpr h)]
  split
  · exact hminus _
  · simp [hminus]

theorem head?_decimalText (q : ℚ) : (decimalText q).toList.head? = some '-' ↔ q < 0 := by
  have hhead : ∀ {cs : List Char}, '-' ∉ cs → ¬ cs.head? = some '-' := fun h hc =>
    h (List.mem_of_mem_head? hc)
  unfold decimalText
  cases Binary64.nearest q.num.natAbs q.den with
  | none =>
    by_cases hq : q < 0
    · rw [Numeral.toList_fractionText, Numeral.toList_integerText, if_pos (Rat.num_neg.mpr hq)]
      split <;> simp [hq]
    · exact iff_of_false (hhead (minus_not_mem_fractionText hq)) hq
  | some b =>
    by_cases hq : q < 0
    · simp [hq]
    · simpa [hq] using hhead b.minus_not_mem_digits

theorem RoundsTo.sign {x y : ℚ} {s : List Char} {e : ℤ} (hs : Numeral.Sign s e)
    (h : RoundsTo x y) : RoundsTo (e * x) (e * y) := by
  cases hs with
  | none => simpa using h
  | plus => simpa using h
  | minus => simpa using h.neg

theorem abs_sign_mul {x : ℚ} {s : List Char} {e : ℤ} (hs : Numeral.Sign s e) (hx : 0 ≤ x) :
    |(e : ℚ) * x| = x := by
  cases hs with
  | none => simpa using abs_of_nonneg hx
  | plus => simpa using abs_of_nonneg hx
  | minus => simpa using abs_of_nonneg hx

theorem exists_sign_decimalText (q : ℚ) : ∃ s e, Numeral.Sign s e ∧ e * |q| = q ∧
    ∀ b, Binary64.nearest q.num.natAbs q.den = some b →
      (decimalText q).toList = s ++ b.digits := by
  unfold decimalText
  by_cases hq : q < 0
  · refine ⟨_, _, .minus, by simp [abs_of_neg hq], fun b hb => ?_⟩
    simp only [hb, if_pos hq, String.toList_ofList, List.singleton_append]
  · refine ⟨_, _, .none, by simp [abs_of_nonneg (not_lt.mp hq)], fun b hb => ?_⟩
    simp only [hb, if_neg hq, String.toList_ofList, List.nil_append]

theorem roundsTo_zero : RoundsTo 0 0 := by
  have h := (Binary64.covers_toRat _).roundsTo canonical_zero
  rwa [Binary64.toRat_of_zero rfl] at h

theorem exists_number?_decimalText (q : ℚ) : ∃ r y,
    Numeral.number? (decimalText q).toList = some r ∧ RoundsTo q y ∧ RoundsTo r y ∧
      (Binary64.limit ≤ |y| → r = q) := by
  by_cases hq : q = 0
  · rw [hq]
    exact ⟨0, 0, by decide +kernel, roundsTo_zero, roundsTo_zero, fun _ => rfl⟩
  · obtain ⟨b, hb, hcovers, hnearest⟩ :=
      Binary64.exists_nearest (Int.natAbs_pos.mpr (Rat.num_ne_zero.mpr hq)) q.den_pos
    obtain ⟨s, e, hs, hsign, htext⟩ := exists_sign_decimalText q
    rw [natAbs_num_div_den] at hcovers
    have hround : RoundsTo q (e * b.toRat) := by
      have h := (hcovers.roundsTo hb).sign hs
      rwa [hsign] at h
    by_cases hfinite : b.exponent ≤ Binary64.maxExponent
    · rw [if_pos hfinite] at hnearest
      obtain ⟨x, hx, hdenotes⟩ := Binary64.exists_denotes_digits hb hs
      refine ⟨e * x, e * b.toRat, ?_, hround, hx.sign hs, fun hlarge => ?_⟩
      · rw [htext b hnearest]
        exact hdenotes.number?_eq hdenotes.trim_eq
      · rw [abs_sign_mul hs b.toRat_nonneg] at hlarge
        exact absurd (hb.toRat_lt_limit hfinite) (not_lt.mpr hlarge)
    · rw [if_neg hfinite] at hnearest
      have hfraction : decimalText q = Numeral.fractionText q := by
        unfold decimalText
        simp only [hnearest]
      rw [hfraction]
      exact ⟨q, _, Numeral.number?_fractionText q, hround, hround, fun _ => rfl⟩

/-- **The decimal text of a number is read as a number that rounds alike**, and as the number itself
if that is infinite in binary64. -/
theorem decimalText_readsBack (q : ℚ) : ∃ r y,
    Numeral.number? (decimalText q).toList = some r ∧
      (∀ z, RoundsTo q z ↔ z = y) ∧ (∀ z, RoundsTo r z ↔ z = y) ∧ (Binary64.limit ≤ |y| → r = q) ∧
      ((decimalText q).toList.head? = some '-' ↔ q < 0) := by
  obtain ⟨r, y, hr, hq, hround, hlarge⟩ := exists_number?_decimalText q
  have hiff : ∀ {x : ℚ}, RoundsTo x y → ∀ z, RoundsTo x z ↔ z = y := fun h z =>
    ⟨fun hz => hz.unique h, fun hz => hz ▸ h⟩
  exact ⟨r, y, hr, hiff hq, hiff hround, hlarge, head?_decimalText q⟩

/-- The least number that is infinite in binary64 is written as it is. -/
theorem decimalText_readsBack_of_limit :
    Numeral.number? (decimalText Binary64.limit).toList = some Binary64.limit := by
  obtain ⟨r, y, hr, hround, -, hlarge, -⟩ := decimalText_readsBack Binary64.limit
  let b : Binary64 := ⟨2 ^ 52, Binary64.maxExponent + 1⟩
  have hcanonical : b.Canonical := ⟨by norm_num [b], by decide, fun _ => le_rfl⟩
  have hlimit : b.toRat = Binary64.limit := by
    rw [Binary64.limit_eq, Binary64.toRat, Nat.cast_pow]
    rfl
  have hy := b.covers_toRat.roundsTo hcanonical
  rw [hlimit, hround] at hy
  rw [hr, hlarge (hy ▸ le_abs_self _)]

end WorkedAlgebra
