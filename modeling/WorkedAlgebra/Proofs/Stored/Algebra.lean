import WorkedAlgebra.Proofs.Method.MatrixArithmetic
import WorkedAlgebra.Proofs.Method.Solving
import WorkedAlgebra.Proofs.Stored.Arithmetic
import WorkedAlgebra.Proofs.Value.Block

/-!
# Laws of arithmetic in storage

On well-formed matrices the operations in storage answer with the sum, the product, the multiple and
the transpose of matrices over the rationals (**`Stored.product_ofMatrix`** and its like), and the
laws of those hold for the answers.
-/

namespace WorkedAlgebra

open Matrix

/-! ## Matrices over the rationals in storage -/

namespace StoredMatrix

def ofMatrix {r c : ℕ} (A : Matrix (Fin r) (Fin c) ℚ) (display : DisplayMode) : StoredMatrix :=
  ⟨r, c, (Grid.ofMatrix A).entries, display⟩

theorem ofMatrix_toMatrix {r c : ℕ} (g : Grid r c) (display : DisplayMode) :
    ofMatrix g.toMatrix display = ⟨r, c, g.entries, display⟩ := by
  rw [ofMatrix, Grid.ofMatrix_toMatrix]

theorem wellFormed_ofMatrix {r c : ℕ} (A : Matrix (Fin r) (Fin c) ℚ) (display : DisplayMode)
    (hr : 0 < r) (hc : 0 < c) : (ofMatrix A display).WellFormed :=
  RatMatrix.wellFormed_stored ⟨r, c, .ofMatrix A, display, hr, hc⟩

theorem WellFormed.exists_ofMatrix {a : StoredMatrix} (h : a.WellFormed) :
    ∃ (r c : ℕ) (A : Matrix (Fin r) (Fin c) ℚ) (display : DisplayMode),
      0 < r ∧ 0 < c ∧ ofMatrix A display = a := by
  obtain ⟨m, rfl⟩ := h.exists_stored
  exact ⟨m.rows, m.cols, m.grid.toMatrix, m.display, m.rows_pos, m.cols_pos,
    ofMatrix_toMatrix m.grid m.display⟩

end StoredMatrix

namespace Stored

open MatrixArithmetic (Side)
open StoredMatrix (ofMatrix ofMatrix_toMatrix)

/-! ## Answers -/

/-- The matrix that an operation answers with; nothing if it fails. -/
def answered : Except StoredFault StoredSolution → Option StoredMatrix
  | .ok ⟨_, _, .matrix a, _⟩ => some a
  | _ => none

def sum (a b : StoredMatrix) : Option StoredMatrix :=
  answered (plus a b)

def product (a b : StoredMatrix) : Option StoredMatrix :=
  answered (multiply a b)

def scaled (side : Side) (s : Scalar) (a : StoredMatrix) : Option StoredMatrix :=
  answered (scale side s a)

def transposed (a : StoredMatrix) : Option StoredMatrix :=
  answered (transpose a)

/-- The identity of a size that is a word; nothing if no such matrix can be made. -/
def identity (n : UInt64) : Option StoredMatrix := do
  let block ← (Block.identity n).toOption
  let m ← block.toMatrix?
  pure m.stored

theorem answered_of_answers {r : Except MethodFault Solution} {m : RatMatrix}
    (h : Answers r (.matrix m)) : answered (storedResult r) = some m.stored := by
  obtain ⟨⟨op, inputs, answer, steps⟩, rfl, rfl⟩ := h
  rfl

section

variable {n k d : ℕ} (da db : DisplayMode)

theorem product_ofMatrix (A : Matrix (Fin n) (Fin k) ℚ) (B : Matrix (Fin k) (Fin d) ℚ)
    (hn : 0 < n) (hk : 0 < k) (hd : 0 < d) :
    product (ofMatrix A da) (ofMatrix B db) = some (ofMatrix (A * B) (.resolve [da, db])) := by
  have hmul : Grid.mul (.ofMatrix A) (.ofMatrix B) = .ofMatrix (A * B) :=
    Grid.toMatrix_injective (by simp)
  have h := answered_of_answers
    (MatrixArithmetic.answers_multiply da db (.ofMatrix A) (.ofMatrix B) hn hk hk hd)
  rw [← multiply_stored, hmul] at h
  exact h

theorem product_eq_none {a b : StoredMatrix} (h : a.cols ≠ b.rows) : product a b = none := by
  unfold product multiply
  rw [if_neg h]
  rfl

theorem sum_ofMatrix (A B : Matrix (Fin n) (Fin k) ℚ) (hn : 0 < n) (hk : 0 < k) :
    sum (ofMatrix A da) (ofMatrix B db) = some (ofMatrix (A + B) (.resolve [da, db])) := by
  have hadd : (Grid.ofFn fun i j => (Grid.ofMatrix A).get i j + (Grid.ofMatrix B).get i j) =
      .ofMatrix (A + B) := by
    ext i j
    simp
  have h := answered_of_answers
    (MatrixArithmetic.answers_plus da db (.ofMatrix A) (.ofMatrix B) hn hk)
  rw [← plus_stored, hadd] at h
  exact h

theorem sum_eq_none {a b : StoredMatrix} (h : ¬ (a.rows = b.rows ∧ a.cols = b.cols)) :
    sum a b = none := by
  unfold sum plus entrywise
  rw [if_neg h]
  rfl

theorem scaled_ofMatrix (side : Side) (s : Scalar) (A : Matrix (Fin n) (Fin k) ℚ)
    (hn : 0 < n) (hk : 0 < k) :
    scaled side s (ofMatrix A da) =
      some (ofMatrix (s.value • A) (.resolve [s.display, da])) := by
  have hsmul : (Grid.ofFn fun i j => s.value * (Grid.ofMatrix A).get i j) =
      .ofMatrix (s.value • A) := by
    ext i j
    simp
  have h := answered_of_answers (MatrixArithmetic.answers_scale da side s (.ofMatrix A) hn hk)
  rw [← scale_stored, hsmul] at h
  exact h

theorem transposed_ofMatrix (A : Matrix (Fin n) (Fin k) ℚ) (hn : 0 < n) (hk : 0 < k) :
    transposed (ofMatrix A da) = some (ofMatrix Aᵀ (.resolve [da])) := by
  have htranspose : (Grid.ofMatrix A).transpose = .ofMatrix Aᵀ :=
    Grid.toMatrix_injective (by simp)
  have h := answered_of_answers (MatrixArithmetic.answers_transpose da (.ofMatrix A) hn hk)
  rw [← transpose_stored, htranspose] at h
  exact h

end

theorem identity_eq_some_iff {n : UInt64} {i : StoredMatrix} :
    identity n = some i ↔ n ≠ 0 ∧ n.toNat * n.toNat < UInt64.size ∧
      i = ofMatrix (1 : Matrix (Fin n.toNat) (Fin n.toNat) ℚ) .fraction := by
  unfold identity
  by_cases hn : n = 0
  · subst hn
    simp [Block.identity_zero, Except.toOption]
  · rw [Block.identity_eq_ok hn]
    by_cases hfits : n.toNat * n.toNat < UInt64.size
    · obtain ⟨hpos, hm⟩ := Block.toMatrix?_identity hn hfits
      have hone : RatMatrix.stored ⟨n.toNat, n.toNat, .identity n.toNat, .fraction, hpos, hpos⟩ =
          ofMatrix (1 : Matrix (Fin n.toNat) (Fin n.toNat) ℚ) .fraction := by
        rw [← Grid.toMatrix_identity, ofMatrix_toMatrix]
        rfl
      simp [Except.toOption, hm, hone, hn, hfits, eq_comm]
    · simp [Except.toOption, Block.toMatrix?_identity_eq_none hfits, hfits]

theorem isSome_identity_iff {n : UInt64} :
    (identity n).isSome ↔ n ≠ 0 ∧ n.toNat * n.toNat < UInt64.size := by
  simp [Option.isSome_iff_exists, identity_eq_some_iff]

/-! ## Laws -/

section

variable {a b c : StoredMatrix}

theorem isSome_product_iff (ha : a.WellFormed) (hb : b.WellFormed) :
    (product a b).isSome ↔ a.cols = b.rows := by
  obtain ⟨n, k, A, da, hn, hk, rfl⟩ := ha.exists_ofMatrix
  obtain ⟨k', m, B, db, hk', hm, rfl⟩ := hb.exists_ofMatrix
  by_cases hab : k = k'
  · subst hab
    rw [product_ofMatrix da db A B hn hk hm]
    exact iff_of_true rfl rfl
  · rw [product_eq_none hab]
    exact iff_of_false (by simp) hab

theorem wellFormed_of_product {p : StoredMatrix} (ha : a.WellFormed) (hb : b.WellFormed)
    (hp : product a b = some p) : p.WellFormed := by
  have hab : a.cols = b.rows := (isSome_product_iff ha hb).mp (by rw [hp]; rfl)
  obtain ⟨n, k, A, da, hn, hk, rfl⟩ := ha.exists_ofMatrix
  obtain ⟨k', m, B, db, hk', hm, rfl⟩ := hb.exists_ofMatrix
  obtain rfl : k = k' := hab
  rw [product_ofMatrix da db A B hn hk hm] at hp
  obtain rfl := Option.some.inj hp
  exact StoredMatrix.wellFormed_ofMatrix _ _ hn hm

theorem isSome_sum_iff (ha : a.WellFormed) (hb : b.WellFormed) :
    (sum a b).isSome ↔ a.rows = b.rows ∧ a.cols = b.cols := by
  obtain ⟨n, k, A, da, hn, hk, rfl⟩ := ha.exists_ofMatrix
  obtain ⟨n', k', B, db, -, -, rfl⟩ := hb.exists_ofMatrix
  by_cases hab : n = n' ∧ k = k'
  · obtain ⟨rfl, rfl⟩ := hab
    rw [sum_ofMatrix da db A B hn hk]
    exact iff_of_true rfl ⟨rfl, rfl⟩
  · rw [sum_eq_none hab]
    exact iff_of_false (by simp) hab

/-- **Products are associative**, and either both are defined or neither is. -/
theorem product_assoc (ha : a.WellFormed) (hb : b.WellFormed) (hc : c.WellFormed) :
    (do let p ← product a b; product p c) = (do let q ← product b c; product a q) := by
  obtain ⟨n, k, A, da, hn, hk, rfl⟩ := ha.exists_ofMatrix
  obtain ⟨k', l, B, db, hk', hl, rfl⟩ := hb.exists_ofMatrix
  obtain ⟨l', m, C, dc, hl', hm, rfl⟩ := hc.exists_ofMatrix
  have hmode : DisplayMode.resolve [.resolve [da, db], dc] =
      .resolve [da, .resolve [db, dc]] :=
    DisplayMode.resolve_congr (by simp [or_assoc])
  by_cases hab : k = k' <;> by_cases hbc : l = l'
  · subst hab hbc
    rw [product_ofMatrix da db A B hn hk hl, product_ofMatrix db dc B C hk hl hm]
    refine (product_ofMatrix _ dc (A * B) C hn hl hm).trans ?_
    rw [Matrix.mul_assoc, hmode]
    exact (product_ofMatrix da _ A (B * C) hn hk hm).symm
  · subst hab
    rw [product_ofMatrix da db A B hn hk hl, product_eq_none hbc]
    exact product_eq_none hbc
  · subst hbc
    rw [product_ofMatrix db dc B C hk' hl hm, product_eq_none hab]
    exact (product_eq_none hab).symm
  · rw [product_eq_none hab, product_eq_none hbc]
    rfl

/-- **A product distributes over a sum on its right.** -/
theorem product_sum (ha : a.WellFormed) (hb : b.WellFormed) (hc : c.WellFormed) :
    (do let t ← sum b c; product a t) =
      (do let p ← product a b; let q ← product a c; sum p q) := by
  obtain ⟨n, k, A, da, hn, hk, rfl⟩ := ha.exists_ofMatrix
  obtain ⟨k₁, l₁, B, db, hk₁, hl₁, rfl⟩ := hb.exists_ofMatrix
  obtain ⟨k₂, l₂, C, dc, hk₂, hl₂, rfl⟩ := hc.exists_ofMatrix
  have hmode : DisplayMode.resolve [da, .resolve [db, dc]] =
      .resolve [.resolve [da, db], .resolve [da, dc]] :=
    DisplayMode.resolve_congr (by simp; tauto)
  by_cases hab : k = k₁
  · by_cases hac : k = k₂
    · subst hab hac
      rw [product_ofMatrix da db A B hn hk hl₁, product_ofMatrix da dc A C hn hk hl₂]
      by_cases hl : l₁ = l₂
      · subst hl
        rw [sum_ofMatrix db dc B C hk hl₁]
        refine (product_ofMatrix da _ A (B + C) hn hk hl₁).trans ?_
        rw [Matrix.mul_add, hmode]
        exact (sum_ofMatrix _ _ (A * B) (A * C) hn hl₁).symm
      · rw [sum_eq_none fun h => hl h.2]
        exact (sum_eq_none fun h => hl h.2).symm
    · have hne : ¬ (k₁ = k₂ ∧ l₁ = l₂) := fun h => hac (hab.trans h.1)
      subst hab
      rw [sum_eq_none hne, product_ofMatrix da db A B hn hk hl₁, product_eq_none hac]
      rfl
  · rw [product_eq_none (b := ofMatrix B db) hab]
    by_cases hsum : k₁ = k₂ ∧ l₁ = l₂
    · obtain ⟨rfl, rfl⟩ := hsum
      rw [sum_ofMatrix db dc B C hk₁ hl₁]
      exact product_eq_none hab
    · rw [sum_eq_none hsum]
      rfl

theorem sum_product (ha : a.WellFormed) (hb : b.WellFormed) (hc : c.WellFormed) :
    (do let t ← sum a b; product t c) =
      (do let p ← product a c; let q ← product b c; sum p q) := by
  obtain ⟨n₁, k₁, A, da, hn₁, hk₁, rfl⟩ := ha.exists_ofMatrix
  obtain ⟨n₂, k₂, B, db, hn₂, hk₂, rfl⟩ := hb.exists_ofMatrix
  obtain ⟨k, m, C, dc, hk, hm, rfl⟩ := hc.exists_ofMatrix
  have hmode : DisplayMode.resolve [.resolve [da, db], dc] =
      .resolve [.resolve [da, dc], .resolve [db, dc]] :=
    DisplayMode.resolve_congr (by simp; tauto)
  by_cases hac : k₁ = k
  · by_cases hbc : k₂ = k
    · subst hac hbc
      rw [product_ofMatrix da dc A C hn₁ hk₁ hm, product_ofMatrix db dc B C hn₂ hk₁ hm]
      by_cases hn : n₁ = n₂
      · subst hn
        rw [sum_ofMatrix da db A B hn₁ hk₁]
        refine (product_ofMatrix _ dc (A + B) C hn₁ hk₁ hm).trans ?_
        rw [Matrix.add_mul, hmode]
        exact (sum_ofMatrix _ _ (A * C) (B * C) hn₁ hm).symm
      · rw [sum_eq_none fun h => hn h.1]
        exact (sum_eq_none fun h => hn h.1).symm
    · have hne : ¬ (n₁ = n₂ ∧ k₁ = k₂) := fun h => hbc (h.2.symm.trans hac)
      subst hac
      rw [sum_eq_none hne, product_ofMatrix da dc A C hn₁ hk₁ hm, product_eq_none hbc]
      rfl
  · rw [product_eq_none (a := ofMatrix A da) (b := ofMatrix C dc) hac]
    by_cases hsum : n₁ = n₂ ∧ k₁ = k₂
    · obtain ⟨rfl, rfl⟩ := hsum
      rw [sum_ofMatrix da db A B hn₁ hk₁]
      exact product_eq_none hac
    · rw [sum_eq_none hsum]
      rfl

theorem scaled_product (side : Side) (s : Scalar) (ha : a.WellFormed) (hb : b.WellFormed) :
    (do let p ← product a b; scaled side s p) = (do let x ← scaled side s a; product x b) ∧
      (do let p ← product a b; scaled side s p) = (do let y ← scaled side s b; product a y) := by
  obtain ⟨n, k, A, da, hn, hk, rfl⟩ := ha.exists_ofMatrix
  obtain ⟨k', m, B, db, hk', hm, rfl⟩ := hb.exists_ofMatrix
  rw [scaled_ofMatrix da side s A hn hk, scaled_ofMatrix db side s B hk' hm]
  by_cases hab : k = k'
  · subst hab
    rw [product_ofMatrix da db A B hn hk hm]
    have hleft : DisplayMode.resolve [s.display, .resolve [da, db]] =
        .resolve [.resolve [s.display, da], db] :=
      DisplayMode.resolve_congr (by simp [or_assoc])
    have hright : DisplayMode.resolve [s.display, .resolve [da, db]] =
        .resolve [da, .resolve [s.display, db]] :=
      DisplayMode.resolve_congr (by simp [or_left_comm])
    have hscaled := scaled_ofMatrix (.resolve [da, db]) side s (A * B) hn hm
    constructor
    · refine hscaled.trans ?_
      rw [hleft, ← Matrix.smul_mul]
      exact (product_ofMatrix _ db (s.value • A) B hn hk hm).symm
    · refine hscaled.trans ?_
      rw [hright, ← Matrix.mul_smul]
      exact (product_ofMatrix da _ A (s.value • B) hn hk hm).symm
  · rw [product_eq_none hab]
    exact ⟨(product_eq_none hab).symm, (product_eq_none hab).symm⟩

theorem isSome_scaled (side : Side) (s : Scalar) (ha : a.WellFormed) :
    (scaled side s a).isSome := by
  obtain ⟨n, k, A, da, hn, hk, rfl⟩ := ha.exists_ofMatrix
  rw [scaled_ofMatrix da side s A hn hk]
  rfl

theorem scaled_left_eq_right (s : Scalar) (ha : a.WellFormed) :
    scaled .left s a = scaled .right s a := by
  obtain ⟨n, k, A, da, hn, hk, rfl⟩ := ha.exists_ofMatrix
  rw [scaled_ofMatrix da .left s A hn hk, scaled_ofMatrix da .right s A hn hk]

theorem product_identity {n : UInt64} {i : StoredMatrix} (hi : identity n = some i)
    (ha : a.WellFormed) (fits : a.cols = n.toNat) :
    product a i = some (a.withDisplay (.resolve [a.display])) := by
  obtain ⟨-, -, rfl⟩ := identity_eq_some_iff.mp hi
  obtain ⟨r, c, A, da, hr, hc, rfl⟩ := ha.exists_ofMatrix
  obtain rfl : c = n.toNat := fits
  have hmode : DisplayMode.resolve [da, .fraction] = .resolve [da] :=
    DisplayMode.resolve_congr (by simp)
  rw [product_ofMatrix da .fraction A 1 hr hc hc, Matrix.mul_one, hmode]
  rfl

theorem identity_product {n : UInt64} {i : StoredMatrix} (hi : identity n = some i)
    (ha : a.WellFormed) (fits : n.toNat = a.rows) :
    product i a = some (a.withDisplay (.resolve [a.display])) := by
  obtain ⟨-, -, rfl⟩ := identity_eq_some_iff.mp hi
  obtain ⟨r, c, A, da, hr, hc, rfl⟩ := ha.exists_ofMatrix
  obtain rfl : n.toNat = r := fits
  have hmode : DisplayMode.resolve [.fraction, da] = .resolve [da] :=
    DisplayMode.resolve_congr (by simp)
  rw [product_ofMatrix .fraction da 1 A hr hr hc, Matrix.one_mul, hmode]
  rfl

/-- **The laws of matrix arithmetic**, for shape, entries and mode alike: of both sides of a law
either both are defined or neither is. -/
theorem arithmetic_laws (ha : a.WellFormed) (hb : b.WellFormed) (hc : c.WellFormed) :
    ((product a b).isSome ↔ a.cols = b.rows) ∧
    ((sum a b).isSome ↔ a.rows = b.rows ∧ a.cols = b.cols) ∧
    (do let p ← product a b; product p c) = (do let q ← product b c; product a q) ∧
    (do let t ← sum b c; product a t) =
      (do let p ← product a b; let q ← product a c; sum p q) ∧
    (do let t ← sum a b; product t c) =
      (do let p ← product a c; let q ← product b c; sum p q) ∧
    (∀ (side : Side) (s : Scalar),
      (do let p ← product a b; scaled side s p) = (do let x ← scaled side s a; product x b) ∧
      (do let p ← product a b; scaled side s p) = (do let y ← scaled side s b; product a y)) ∧
    (∀ s : Scalar, (scaled .left s a).isSome ∧ scaled .left s a = scaled .right s a) ∧
    (∀ n : UInt64, (identity n).isSome ↔ n ≠ 0 ∧ n.toNat * n.toNat < UInt64.size) ∧
    (∀ n i, identity n = some i →
      (a.cols = n.toNat → product a i = some (a.withDisplay (.resolve [a.display]))) ∧
      (n.toNat = a.rows → product i a = some (a.withDisplay (.resolve [a.display])))) :=
  ⟨isSome_product_iff ha hb, isSome_sum_iff ha hb, product_assoc ha hb hc, product_sum ha hb hc,
    sum_product ha hb hc, fun side s => scaled_product side s ha hb,
    fun s => ⟨isSome_scaled .left s ha, scaled_left_eq_right s ha⟩, fun _ => isSome_identity_iff,
    fun _ _ hi => ⟨product_identity hi ha, identity_product hi ha⟩⟩

/-- A row, a matrix of two rows and three columns, and a column. -/
theorem arithmetic_laws_of_rectangles :
    let a : StoredMatrix := ⟨1, 2, [1, 2], .decimal⟩
    let b : StoredMatrix := ⟨2, 3, [0, 1, 2, 3, 4, 5], .fraction⟩
    let c : StoredMatrix := ⟨3, 1, [1, 0, -1], .custom "c"⟩
    a.WellFormed ∧ b.WellFormed ∧ c.WellFormed ∧ (product a b).isSome ∧
      (do let p ← product a b; product p c) = (do let q ← product b c; product a q) ∧
      ∃ i, identity 2 = some i ∧ product a i = some a := by
  intro a b c
  have ha : a.WellFormed := by decide
  have hb : b.WellFormed := by decide
  have hc : c.WellFormed := by decide
  obtain ⟨hab, -, hassoc, -, -, -, -, hsome, hidentity⟩ := arithmetic_laws ha hb hc
  obtain ⟨i, hi⟩ := Option.isSome_iff_exists.mp ((hsome 2).mpr (by decide))
  exact ⟨ha, hb, hc, hab.mpr rfl, hassoc, i, hi, (hidentity 2 i hi).1 rfl⟩

/-! ## Transposes -/

theorem isSome_transposed (ha : a.WellFormed) : (transposed a).isSome := by
  obtain ⟨n, k, A, da, hn, hk, rfl⟩ := ha.exists_ofMatrix
  rw [transposed_ofMatrix da A hn hk]
  rfl

theorem transposed_transposed (ha : a.WellFormed) :
    (do let t ← transposed a; transposed t) = some (a.withDisplay (.resolve [a.display])) := by
  obtain ⟨n, k, A, da, hn, hk, rfl⟩ := ha.exists_ofMatrix
  rw [transposed_ofMatrix da A hn hk]
  refine (transposed_ofMatrix _ Aᵀ hk hn).trans ?_
  rw [Matrix.transpose_transpose, DisplayMode.resolve_resolve]
  rfl

theorem transposed_product (ha : a.WellFormed) (hb : b.WellFormed) :
    (do let p ← product a b; transposed p) =
      (do let y ← transposed b; let x ← transposed a; product y x) := by
  obtain ⟨n, k, A, da, hn, hk, rfl⟩ := ha.exists_ofMatrix
  obtain ⟨k', m, B, db, hk', hm, rfl⟩ := hb.exists_ofMatrix
  rw [transposed_ofMatrix da A hn hk, transposed_ofMatrix db B hk' hm]
  by_cases hab : k = k'
  · subst hab
    have hmode : DisplayMode.resolve [.resolve [da, db]] =
        .resolve [.resolve [db], .resolve [da]] :=
      DisplayMode.resolve_congr (by simp [or_comm])
    rw [product_ofMatrix da db A B hn hk hm]
    refine (transposed_ofMatrix _ (A * B) hn hm).trans ?_
    rw [Matrix.transpose_mul, hmode]
    exact (product_ofMatrix _ _ Bᵀ Aᵀ hm hk hn).symm
  · rw [product_eq_none hab]
    exact (product_eq_none fun h => hab h.symm).symm

/-- **The laws of transposition**: transposing twice only resolves the mode, and the transpose of a
product is the product of the transposes in reverse order, defined if the product is. -/
theorem transposition_laws (ha : a.WellFormed) (hb : b.WellFormed) :
    (do let t ← transposed a; transposed t) =
      some (a.withDisplay (if a.display = .decimal then .decimal else .fraction)) ∧
    ((product a b).isSome ↔
      (do let y ← transposed b; let x ← transposed a; product y x).isSome) ∧
    (do let p ← product a b; transposed p) =
      (do let y ← transposed b; let x ← transposed a; product y x) := by
  have hresolve : (if a.display = .decimal then .decimal else .fraction) =
      DisplayMode.resolve [a.display] := by
    simp [DisplayMode.resolve, eq_comm]
  have hproduct := transposed_product ha hb
  refine ⟨?_, ?_, hproduct⟩
  · rw [hresolve, transposed_transposed ha]
  · rw [← hproduct]
    cases hp : product a b with
    | none => rfl
    | some p => exact iff_of_true rfl (isSome_transposed (wellFormed_of_product ha hb hp))

/-- A row and a matrix of two rows and three columns. -/
theorem transposition_laws_of_rectangles :
    let a : StoredMatrix := ⟨1, 2, [1, 2], .custom "a"⟩
    let b : StoredMatrix := ⟨2, 3, [0, 1, 2, 3, 4, 5], .decimal⟩
    a.WellFormed ∧ b.WellFormed ∧
      (do let t ← transposed a; transposed t) = some ⟨1, 2, [1, 2], .fraction⟩ ∧
      (do let p ← product a b; transposed p) =
        (do let y ← transposed b; let x ← transposed a; product y x) := by
  intro a b
  have ha : a.WellFormed := by decide
  have hb : b.WellFormed := by decide
  obtain ⟨htwice, -, hproduct⟩ := transposition_laws ha hb
  exact ⟨ha, hb, htwice, hproduct⟩

end

end Stored
end WorkedAlgebra
