import Mathlib.Data.Rat.Lemmas
import WorkedAlgebra.Number.Numeral

/-!
# Numerals are read back

* **`Numeral.number?_fractionText`**: the texts of natural numbers, integers and rationals denote
  the numbers that they were written for.
-/

namespace WorkedAlgebra

/-! ## Blanks -/

namespace Text

theorem isBlank_of_isDigit {c : Char} (h : c.isDigit) : isBlank c = false := by
  have hc : 48 ≤ c.toNat ∧ c.toNat ≤ 57 := Char.isDigit_iff_toNat.mp h
  unfold isBlank
  simp only [Bool.or_eq_false_iff, Bool.and_eq_false_iff, decide_eq_false_iff_not,
    beq_eq_false_iff_ne]
  omega

theorem trim_of_forall {cs : List Char} (h : ∀ c ∈ cs, isBlank c = false) : trim cs = cs := by
  have hdrop : ∀ {ds : List Char}, (∀ c ∈ ds, isBlank c = false) → ds.dropWhile isBlank = ds := by
    intro ds hd
    cases ds with
    | nil => rfl
    | cons d ds => rw [List.dropWhile_cons, if_neg (by simp [hd d (by simp)])]
  unfold trim
  rw [hdrop h, hdrop (by simpa using h), List.reverse_reverse]

end Text

namespace Numeral

/-! ## Characters of numerals -/

theorem isDigit_of_mem_toDigits {n : ℕ} {c : Char} (h : c ∈ Nat.toDigits 10 n) : c.isDigit :=
  Nat.isDigit_of_mem_toDigits (by decide) (by decide) h

theorem toList_integerText (z : ℤ) :
    (integerText z).toList = if z < 0 then '-' :: Nat.toDigits 10 z.natAbs
      else Nat.toDigits 10 z.natAbs := by
  cases z with
  | ofNat n => simp [integerText]
  | negSucc n => simp [integerText]

theorem mem_integerText {z : ℤ} {c : Char} (h : c ∈ (integerText z).toList) :
    c.isDigit ∨ c = '-' := by
  rw [toList_integerText] at h
  by_cases hz : z < 0
  · rw [if_pos hz, List.mem_cons] at h
    exact h.symm.imp isDigit_of_mem_toDigits id
  · rw [if_neg hz] at h
    exact .inl (isDigit_of_mem_toDigits h)

theorem not_mem_integerText {c : Char} (hd : c.isDigit = false) (hm : c ≠ '-') (z : ℤ) :
    c ∉ (integerText z).toList := fun h => by
  rcases mem_integerText h with h | h
  · simp [hd] at h
  · exact hm h

theorem toList_fractionText (q : ℚ) :
    (fractionText q).toList = if q.den = 1 then (integerText q.num).toList
      else (integerText q.num).toList ++ '/' :: Nat.toDigits 10 q.den := by
  unfold fractionText
  by_cases h : q.den = 1
  · rw [if_pos h, if_pos h]
  · rw [if_neg h, if_neg h]
    simp

theorem mem_fractionText {q : ℚ} {c : Char} (h : c ∈ (fractionText q).toList) :
    c.isDigit ∨ c = '-' ∨ c = '/' := by
  rw [toList_fractionText] at h
  by_cases hq : q.den = 1
  · rw [if_pos hq] at h
    exact (mem_integerText h).imp id .inl
  · rw [if_neg hq, List.mem_append, List.mem_cons] at h
    rcases h with h | h | h
    · exact (mem_integerText h).imp id .inl
    · exact .inr (.inr h)
    · exact .inl (isDigit_of_mem_toDigits h)

theorem not_mem_fractionText {c : Char} (hd : c.isDigit = false) (hm : c ≠ '-') (hs : c ≠ '/')
    (q : ℚ) : c ∉ (fractionText q).toList := fun h => by
  rcases mem_fractionText h with h | h | h
  · simp [hd] at h
  · exact hm h
  · exact hs h

theorem isBlank_of_mem_fractionText {q : ℚ} {c : Char} (h : c ∈ (fractionText q).toList) :
    Text.isBlank c = false := by
  rcases mem_fractionText h with h | rfl | rfl
  · exact Text.isBlank_of_isDigit h
  · decide
  · decide

/-! ## Splitting -/

theorem splitAtFirst_append {c : Char} {before : List Char} (h : c ∉ before) (after : List Char) :
    splitAtFirst c (before ++ c :: after) = some (before, after) := by
  have hne : ∀ d ∈ before, (d != c) = true := fun d hd => by
    simpa using fun hc : d = c => h (hc ▸ hd)
  unfold splitAtFirst
  rw [List.dropWhile_append_of_pos hne, List.takeWhile_append_of_pos hne]
  simp

theorem splitAtFirst_eq_none {c : Char} {cs : List Char} (h : c ∉ cs) :
    splitAtFirst c cs = none := by
  have hne : ∀ d ∈ cs, (d != c) = true := fun d hd => by
    simpa using fun hc : d = c => h (hc ▸ hd)
  have hnil : cs.dropWhile (· != c) = [] := by
    rw [← List.append_nil cs, List.dropWhile_append_of_pos hne, List.dropWhile_nil]
  unfold splitAtFirst
  rw [hnil]

/-! ## Reading -/

/-- **The digits of a natural number are read back.** -/
theorem natural?_toDigits (n : ℕ) : natural? (Nat.toDigits 10 n) = some n := by
  have hdigit : ∀ c ∈ Nat.toDigits 10 n, c.isDigit := fun c => isDigit_of_mem_toDigits
  cases hn : Nat.toDigits 10 n with
  | nil => exact absurd hn Nat.toDigits_ne_nil
  | cons c cs =>
    rw [hn] at hdigit
    have hall : (c.isDigit && cs.all fun d => d.isDigit || d == '_') = true := by
      simp only [Bool.and_eq_true, List.all_eq_true, Bool.or_eq_true]
      exact ⟨hdigit c (by simp), fun d hd => .inl (hdigit d (by simp [hd]))⟩
    -- a digit is no underscore
    have hfilter : (c :: cs).filter (· != '_') = c :: cs := by
      rw [List.filter_eq_self]
      intro d hd
      have hne : d ≠ '_' := by
        rintro rfl
        exact absurd (hdigit _ hd) (by decide)
      simpa using hne
    rw [natural?, if_pos hall, hfilter, ← hn, Nat.ofDigitChars_toDigits (by decide) (by decide)]

theorem integer?_toDigits (n : ℕ) : integer? (Nat.toDigits 10 n) = some (n : ℤ) := by
  have hdigit : ∀ c ∈ Nat.toDigits 10 n, c.isDigit := fun c => isDigit_of_mem_toDigits
  have hnat := natural?_toDigits n
  unfold integer?
  split
  · next cs hcs => exact absurd (hdigit '-' (by simp [hcs])) (by decide)
  · next cs hcs => exact absurd (hdigit '+' (by simp [hcs])) (by decide)
  · rw [hnat]
    rfl

/-- **The text of an integer is read back.** -/
theorem integer?_integerText (z : ℤ) : integer? (integerText z).toList = some z := by
  rw [toList_integerText]
  by_cases hz : z < 0
  · rw [if_pos hz, integer?, natural?_toDigits]
    change some (-(z.natAbs : ℤ)) = some z
    congr 1
    omega
  · rw [if_neg hz, integer?_toDigits]
    congr 1
    omega

/-- **The text of a rational is read back.** -/
theorem number?_fractionText (q : ℚ) : number? (fractionText q).toList = some q := by
  have htrim : Text.trim (fractionText q).toList = (fractionText q).toList :=
    Text.trim_of_forall fun c => isBlank_of_mem_fractionText
  have hslash : '/' ∉ (integerText q.num).toList :=
    not_mem_integerText (by decide) (by decide) q.num
  unfold number?
  rw [htrim, toList_fractionText]
  by_cases hq : q.den = 1
  · have hpoint : '.' ∉ (integerText q.num).toList :=
      not_mem_integerText (by decide) (by decide) q.num
    rw [if_pos hq]
    simp only [splitAtFirst_eq_none hslash, splitAtFirst_eq_none hpoint]
    rw [integer?_integerText]
    change some (q.num : ℚ) = some q
    rw [Rat.coe_int_num_of_den_eq_one hq]
  · have habove : Text.trim (integerText q.num).toList = (integerText q.num).toList :=
      Text.trim_of_forall fun c h => by
        rcases mem_integerText h with h | rfl
        · exact Text.isBlank_of_isDigit h
        · decide
    have hbelow : Text.trim (Nat.toDigits 10 q.den) = Nat.toDigits 10 q.den :=
      Text.trim_of_forall fun c h => Text.isBlank_of_isDigit (isDigit_of_mem_toDigits h)
    have hden : (q.den : ℤ) ≠ 0 := Int.natCast_ne_zero.mpr q.den_nz
    rw [if_neg hq]
    simp only [splitAtFirst_append hslash]
    unfold quotient?
    rw [habove, hbelow, integer?_integerText, integer?_toDigits]
    simp only [Option.bind_eq_bind, Option.bind_some, if_neg hden, Rat.num_divInt_den]

theorem fractionText_injective : Function.Injective fractionText := by
  intro p q h
  have hp := number?_fractionText p
  rw [h, number?_fractionText] at hp
  exact (Option.some.inj hp).symm

theorem fractionText_ne_nil (q : ℚ) : (fractionText q).toList ≠ [] := by
  intro h
  have hq := number?_fractionText q
  rw [h] at hq
  cases hq

end Numeral
end WorkedAlgebra
