import WorkedAlgebra.Proofs.Method.RowOperation
import WorkedAlgebra.Proofs.Number.Numeral

/-!
# Notes are read back

* **`RowOp.IsElementary.spells`**, **`RowOp.Spells.ofNote?_eq`**: the note of an elementary
  operation spells it, and is read as what it spells.
-/

namespace WorkedAlgebra.RowOp

variable {r : ℕ}

/-! ## Wording -/

/-- The text of a coefficient: nothing for one, a lone sign for minus one, a fraction in
brackets. -/
inductive CoefficientText : String → ℚ → Prop
  | one : CoefficientText "" 1
  | minusOne : CoefficientText "-" (-1)
  | integer {n : ℤ} : n ≠ 1 → n ≠ -1 → CoefficientText (Numeral.integerText n) n
  | fraction {q : ℚ} : q.den ≠ 1 → CoefficientText ("(" ++ Numeral.fractionText q ++ ")") q

theorem coefficientText_coefficient (q : ℚ) : CoefficientText (Written.coefficient q) q := by
  unfold Written.coefficient
  by_cases h₁ : q = 1
  · rw [if_pos h₁, h₁]
    exact .one
  rw [if_neg h₁]
  by_cases h₂ : q = -1
  · rw [if_pos h₂, h₂]
    exact .minusOne
  rw [if_neg h₂]
  by_cases hq : q.den = 1
  · have hnum : (q.num : ℚ) = q := Rat.coe_int_num_of_den_eq_one hq
    have h := CoefficientText.integer (n := q.num) (fun h => h₁ (by rw [← hnum, h]; rfl))
      fun h => h₂ (by rw [← hnum, h]; rfl)
    rw [hnum] at h
    rwa [if_pos hq]
  · rw [if_neg hq]
    exact .fraction hq

/-- **What a note spells**: an exchange of two rows, a multiple of a row, or a row less or more a
positive multiple of another. -/
inductive Spells : String → RowOp r → Prop
  | exchange {i j : Fin r} : i ≠ j → Spells (rowName i ++ " <-> " ++ rowName j) (swap i j)
  | multiple {i : Fin r} {t : String} {q : ℚ} : CoefficientText t q → q ≠ 0 → q ≠ 1 →
    Spells (rowName i ++ " = " ++ t ++ rowName i) (scale i q)
  | less {i j : Fin r} {t : String} {q : ℚ} : CoefficientText t q → 0 < q → i ≠ j →
    Spells (rowName i ++ " = " ++ rowName i ++ " - " ++ t ++ rowName j) (subtract i q j)
  | more {i j : Fin r} {t : String} {q : ℚ} : CoefficientText t q → 0 < q → i ≠ j →
    Spells (rowName i ++ " = " ++ rowName i ++ " + " ++ t ++ rowName j) (subtract i (-q) j)

/-- **The note of an elementary operation spells it.** -/
theorem IsElementary.spells {op : RowOp r} (h : op.IsElementary) : Spells op.note op := by
  cases op with
  | swap i j => exact .exchange h
  | scale i q => exact .multiple (coefficientText_coefficient q) h.1 h.2
  | subtract i q j =>
    obtain ⟨hij, hq⟩ := h
    rw [note.eq_3]
    by_cases hneg : q < 0
    · have h := Spells.more (coefficientText_coefficient (-q)) (neg_pos.mpr hneg) hij
      rw [neg_neg] at h
      rwa [if_pos hneg, if_pos hneg]
    · rw [if_neg hneg, if_neg hneg]
      exact .less (coefficientText_coefficient q) (lt_of_le_of_ne (not_lt.mp hneg) hq.symm) hij

/-! ## Reading -/

def coefficient? : List Char → Option ℚ
  | [] => some 1
  | ['-'] => some (-1)
  | '(' :: cs => if cs.getLast? = some ')' then Numeral.number? cs.dropLast else none
  | cs => (Numeral.integer? cs).map fun n => (n : ℚ)

/-- The row that a text names; rows count from one. -/
def row? (r : ℕ) : List Char → Option (Fin r)
  | 'R' :: cs =>
    match Numeral.natural? cs with
    | some (n + 1) => if h : n < r then some ⟨n, h⟩ else none
    | _ => none
  | _ => none

/-- The coefficient and the row that a text such as `3R1` denotes. -/
def term? (r : ℕ) (cs : List Char) : Option (ℚ × Fin r) := do
  let (before, after) ← Numeral.splitAtFirst 'R' cs
  let q ← coefficient? before
  let i ← row? r ('R' :: after)
  pure (q, i)

def ofWords? (r : ℕ) : List (List Char) → Option (RowOp r)
  | [a, ['<', '-', '>'], b] => do
    let i ← row? r a
    let j ← row? r b
    pure (swap i j)
  | [a, ['='], t] => do
    let i ← row? r a
    let (q, j) ← term? r t
    if j = i then pure (scale i q) else none
  | [a, ['='], b, ['-'], t] => do
    let i ← row? r a
    let k ← row? r b
    let (q, j) ← term? r t
    if k = i then pure (subtract i q j) else none
  | [a, ['='], b, ['+'], t] => do
    let i ← row? r a
    let k ← row? r b
    let (q, j) ← term? r t
    if k = i then pure (subtract i (-q) j) else none
  | _ => none

/-- The row operation that a note names. -/
def ofNote? (r : ℕ) (note : String) : Option (RowOp r) :=
  ofWords? r (note.toList.splitOn ' ')

/-! ## What is spelled is read -/

theorem CoefficientText.coefficient?_eq {t : String} {q : ℚ} (h : CoefficientText t q) :
    coefficient? t.toList = some q := by
  cases h with
  | one => rfl
  | minusOne => rfl
  | @integer n h₁ h₂ =>
    have hread := Numeral.integer?_integerText n
    have hchar := fun c => Numeral.mem_integerText (z := n) (c := c)
    unfold coefficient?
    split
    · next ht =>
      rw [ht] at hread
      cases hread
    · next ht =>
      rw [ht] at hread
      cases hread
    · next cs ht =>
      rw [ht] at hchar
      exact absurd (hchar '(' List.mem_cons_self) (by decide)
    · rw [hread]
      rfl
  | @fraction q hq =>
    have ht : ("(" ++ Numeral.fractionText q ++ ")").toList =
        '(' :: ((Numeral.fractionText q).toList ++ [')']) := by simp
    rw [ht, coefficient?, List.getLast?_concat, if_pos rfl, List.dropLast_concat,
      Numeral.number?_fractionText]

theorem CoefficientText.mem {t : String} {q : ℚ} (h : CoefficientText t q) {c : Char}
    (hc : c ∈ t.toList) : c.isDigit ∨ c ∈ ['-', '/', '(', ')'] := by
  cases h with
  | one => simp at hc
  | minusOne =>
    obtain rfl : c = '-' := by simpa using hc
    exact .inr (by decide)
  | integer _ _ =>
    rcases Numeral.mem_integerText hc with h | rfl
    · exact .inl h
    · exact .inr (by decide)
  | fraction _ =>
    simp only [String.toList_append, List.mem_append] at hc
    rcases hc with (hc | hc) | hc
    · exact .inr (by simp_all)
    · rcases Numeral.mem_fractionText hc with h | rfl | rfl
      · exact .inl h
      · exact .inr (by decide)
      · exact .inr (by decide)
    · exact .inr (by simp_all)

theorem toList_rowName (i : Fin r) : (rowName i).toList = 'R' :: Nat.toDigits 10 (i.val + 1) := by
  simp [rowName]

theorem row?_rowName (i : Fin r) : row? r (rowName i).toList = some i := by
  rw [toList_rowName, row?, Numeral.natural?_toDigits]
  simp

theorem term?_append {t : String} {q : ℚ} (h : CoefficientText t q) (i : Fin r) :
    term? r (t.toList ++ (rowName i).toList) = some (q, i) := by
  have hR : 'R' ∉ t.toList := fun hc => absurd (h.mem hc) (by decide)
  have hi := row?_rowName i
  rw [toList_rowName] at hi ⊢
  unfold term?
  rw [Numeral.splitAtFirst_append hR]
  simp only [Option.bind_eq_bind, Option.bind_some, h.coefficient?_eq, hi]
  rfl

theorem space_notMem_rowName (i : Fin r) : ' ' ∉ (rowName i).toList := fun h => by
  rw [toList_rowName, List.mem_cons] at h
  rcases h with h | h
  · exact absurd h (by decide)
  · exact absurd (Numeral.isDigit_of_mem_toDigits h) (by decide)

theorem CoefficientText.space_notMem {t : String} {q : ℚ} (h : CoefficientText t q) (i : Fin r) :
    ' ' ∉ t.toList ++ (rowName i).toList := fun hc => by
  rcases List.mem_append.mp hc with hc | hc
  · exact absurd (h.mem hc) (by decide)
  · exact space_notMem_rowName i hc

theorem ofNote?_of_words {note : String} (words : List (List Char)) (hne : words ≠ [])
    (hnote : note.toList = [' '].intercalate words) (hwords : ∀ w ∈ words, ' ' ∉ w) :
    ofNote? r note = ofWords? r words := by
  unfold ofNote?
  rw [hnote, List.splitOn_intercalate ' ' hwords hne]

/-- **A note is read as the operation that it spells.** -/
theorem Spells.ofNote?_eq {note : String} {op : RowOp r} (h : Spells note op) :
    ofNote? r note = some op := by
  cases h with
  | @exchange i j hij =>
    rw [ofNote?_of_words [(rowName i).toList, ['<', '-', '>'], (rowName j).toList]]
    · simp [ofWords?, row?_rowName]
    · simp
    · simp [List.intercalate]
    · simp [space_notMem_rowName]
  | @multiple i t q ht h₀ h₁ =>
    have hspace := ht.space_notMem i
    rw [ofNote?_of_words [(rowName i).toList, ['='], t.toList ++ (rowName i).toList]]
    · simp [ofWords?, row?_rowName, term?_append ht]
    · simp
    · simp [List.intercalate]
    · simp_all [space_notMem_rowName]
  | @less i j t q ht hq hij =>
    have hspace := ht.space_notMem j
    rw [ofNote?_of_words [(rowName i).toList, ['='], (rowName i).toList, ['-'],
      t.toList ++ (rowName j).toList]]
    · simp [ofWords?, row?_rowName, term?_append ht]
    · simp
    · simp [List.intercalate]
    · simp_all [space_notMem_rowName]
  | @more i j t q ht hq hij =>
    have hspace := ht.space_notMem j
    rw [ofNote?_of_words [(rowName i).toList, ['='], (rowName i).toList, ['+'],
      t.toList ++ (rowName j).toList]]
    · simp [ofWords?, row?_rowName, term?_append ht]
    · simp
    · simp [List.intercalate]
    · simp_all [space_notMem_rowName]

end WorkedAlgebra.RowOp
