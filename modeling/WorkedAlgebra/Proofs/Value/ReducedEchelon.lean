import Mathlib.Algebra.Module.Submodule.Basic
import Mathlib.LinearAlgebra.Finsupp.LinearCombination
import Mathlib.LinearAlgebra.Matrix.Echelon.Basic
import Mathlib.LinearAlgebra.Matrix.NonsingularInverse
import Mathlib.LinearAlgebra.Matrix.ToLin

/-!
# Row spaces and reduced row echelon forms

* **`Matrix.IsReducedRowEchelon.eq_of_sameRowSpace`**: a row space has only one reduced form.
-/

namespace Matrix

variable {m n K : Type*} [Field K] {A B : Matrix m n K}

/-! ## Row spaces -/

/-- Every row of each of two matrices is a linear combination of the rows of the other. -/
structure SameRowSpace (A B : Matrix m n K) : Prop where
  left (i : m) : A.row i ∈ Submodule.span K (Set.range B.row)
  right (i : m) : B.row i ∈ Submodule.span K (Set.range A.row)

theorem SameRowSpace.symm (h : A.SameRowSpace B) : B.SameRowSpace A :=
  ⟨h.right, h.left⟩

theorem sameRowSpace_iff :
    A.SameRowSpace B ↔ Submodule.span K (Set.range A.row) = Submodule.span K (Set.range B.row) := by
  constructor
  · intro h
    refine le_antisymm (Submodule.span_le.mpr ?_) (Submodule.span_le.mpr ?_)
    · rintro _ ⟨i, rfl⟩
      exact h.left i
    · rintro _ ⟨i, rfl⟩
      exact h.right i
  · intro h
    refine ⟨fun i => ?_, fun i => ?_⟩
    · rw [← h]
      exact Submodule.subset_span ⟨i, rfl⟩
    · rw [h]
      exact Submodule.subset_span ⟨i, rfl⟩

theorem SameRowSpace.trans {C : Matrix m n K} (h : A.SameRowSpace B) (h' : B.SameRowSpace C) :
    A.SameRowSpace C :=
  sameRowSpace_iff.mpr ((sameRowSpace_iff.mp h).trans (sameRowSpace_iff.mp h'))

theorem sameRowSpace_submatrix (A : Matrix m n K) (σ : Equiv.Perm m) :
    A.SameRowSpace (A.submatrix σ id) := by
  rw [sameRowSpace_iff]
  congr 1
  exact (σ.surjective.range_comp A.row).symm

theorem sameRowSpace_mul [Fintype m] [DecidableEq m] {E : Matrix m m K} (hE : IsUnit E)
    (A : Matrix m n K) : (E * A).SameRowSpace A := by
  have hrange : LinearMap.range E.vecMulLinear = ⊤ :=
    LinearMap.range_eq_top.mpr (vecMul_surjective_iff_isUnit.mpr hE)
  rw [sameRowSpace_iff, ← range_vecMulLinear, ← range_vecMulLinear]
  have hcomp : (E * A).vecMulLinear = A.vecMulLinear.comp E.vecMulLinear :=
    LinearMap.ext fun v => (vecMul_vecMul v E A).symm
  rw [hcomp, LinearMap.range_comp, hrange, Submodule.map_top]

/-! ## Reduced forms -/

namespace IsReducedRowEchelon

variable [LinearOrder m] [LinearOrder n]

omit [LinearOrder m] in
theorem isLeadingEntry_congr {i : m} {c : n} (h : A i = B i) :
    A.IsLeadingEntry i c ↔ B.IsLeadingEntry i c := by
  change ((∀ j < c, A i j = 0) ∧ A i c ≠ 0) ↔ (∀ j < c, B i j = 0) ∧ B i c ≠ 0
  rw [h]

theorem row_unique (hA : A.IsReducedRowEchelon) {i i' : m} {c : n} (h : A.IsLeadingEntry i c)
    (h' : A.IsLeadingEntry i' c) : i = i' := by
  by_contra hne
  exact h.2 (hA.eq_zero_of_ne_of_isLeadingEntry hne h')

variable [Fintype m]

theorem sum_smul_row_apply (hA : A.IsReducedRowEchelon) (a : m → K) {i : m} {c : n}
    (h : A.IsLeadingEntry i c) : (∑ i', a i' • A.row i') c = a i := by
  rw [Finset.sum_apply, Finset.sum_eq_single i]
  · rw [Pi.smul_apply, row_apply, hA.eq_one h, smul_eq_mul, mul_one]
  · intro i' _ hne
    rw [Pi.smul_apply, row_apply, hA.eq_zero_of_ne_of_isLeadingEntry hne h, smul_zero]
  · exact fun h => absurd (Finset.mem_univ i) h

variable [Finite n]

theorem eq_zero_of_mem_span (hA : A.IsReducedRowEchelon) {v : n → K}
    (hv : v ∈ Submodule.span K (Set.range A.row))
    (hz : ∀ i c, A.IsLeadingEntry i c → v c = 0) : v = 0 := by
  obtain ⟨a, rfl⟩ := Submodule.mem_span_range_iff_exists_fun K |>.mp hv
  refine Finset.sum_eq_zero fun i _ => ?_
  by_cases hi : A i = 0
  · rw [row, hi, smul_zero]
  · obtain ⟨c, hc⟩ := row_ne_zero_iff_exists_isLeadingEntry.mp hi
    rw [← hA.sum_smul_row_apply a hc, hz i c hc, zero_smul]

/-- **A combination of the rows starts where one of the rows does.** -/
theorem exists_isLeadingEntry (hA : A.IsReducedRowEchelon) {v : n → K} {c : n}
    (hv : v ∈ Submodule.span K (Set.range A.row)) (before : ∀ j < c, v j = 0) (hc : v c ≠ 0) :
    ∃ i, A.IsLeadingEntry i c := by
  obtain ⟨a, rfl⟩ := Submodule.mem_span_range_iff_exists_fun K |>.mp hv
  by_contra hnone
  refine hc ?_
  rw [Finset.sum_apply]
  refine Finset.sum_eq_zero fun i _ => ?_
  rw [Pi.smul_apply, row_apply, smul_eq_mul]
  by_cases hi : A i = 0
  · rw [hi, Pi.zero_apply, mul_zero]
  · obtain ⟨c', hc'⟩ := row_ne_zero_iff_exists_isLeadingEntry.mp hi
    rcases lt_trichotomy c' c with h | rfl | h
    · -- the coefficient of a row that starts before is read off there
      rw [← hA.sum_smul_row_apply a hc', before c' h, zero_mul]
    · exact absurd ⟨i, hc'⟩ hnone
    · rw [hc'.1 c h, mul_zero]

theorem isLeadingEntry_of_above (hA : A.IsReducedRowEchelon) (hB : B.IsReducedRowEchelon)
    (h : A.SameRowSpace B) {i : m} {c : n} (above : ∀ i' < i, A i' = B i')
    (hi : A.IsLeadingEntry i c) : B.IsLeadingEntry i c := by
  have hmoved : ∀ {k j}, k < i → (A.IsLeadingEntry k j ↔ B.IsLeadingEntry k j) :=
    fun hk => isLeadingEntry_congr (above _ hk)
  obtain ⟨k, hk⟩ := hB.exists_isLeadingEntry (h.left i) hi.1 hi.2
  rcases lt_trichotomy k i with hki | rfl | hik
  · exact absurd (hA.row_unique ((hmoved hki).mpr hk) hi) hki.ne
  · exact hk
  -- the row of `B` would start further left, and so would a row of `A`, which has no place for it
  have hne : B i ≠ 0 := fun hz => hk.row_ne_zero (hB.isRowEchelon.row_eq_zero_of_lt hik hz)
  obtain ⟨c', hc'⟩ := row_ne_zero_iff_exists_isLeadingEntry.mp hne
  have hlt : c' < c := by
    by_contra hle
    exact hk.2 (hB.isRowEchelon hik fun j hj => hc'.1 j (hj.trans_le (not_lt.mp hle)))
  obtain ⟨l, hl⟩ := hA.exists_isLeadingEntry (h.right i) hc'.1 hc'.2
  rcases lt_trichotomy l i with hli | rfl | hil
  · exact absurd (hB.row_unique ((hmoved hli).mp hl) hc') hli.ne
  · exact absurd (hl.unique hi) hlt.ne
  · exact absurd (hA.isRowEchelon hil fun j hj => hi.1 j (hj.trans hlt)) hl.2

/-- **A row space has only one reduced row echelon form.** -/
theorem eq_of_sameRowSpace (hA : A.IsReducedRowEchelon) (hB : B.IsReducedRowEchelon)
    (h : A.SameRowSpace B) : A = B := by
  funext i
  induction i using WellFoundedLT.induction with
  | ind i above =>
    have hback : ∀ {c}, B.IsLeadingEntry i c → A.IsLeadingEntry i c := fun hc =>
      hB.isLeadingEntry_of_above hA h.symm (fun k hk => (above k hk).symm) hc
    -- the difference of the two rows is a combination of rows that is zero where they start
    have hsub : A.row i - B.row i = 0 := by
      refine hA.eq_zero_of_mem_span
        (Submodule.sub_mem _ (Submodule.subset_span ⟨i, rfl⟩) (h.right i)) fun k c hk => ?_
      rw [Pi.sub_apply, row_apply, row_apply, sub_eq_zero]
      by_cases hik : i = k
      · subst hik
        rw [hA.eq_one hk, hB.eq_one (hA.isLeadingEntry_of_above hB h above hk)]
      · obtain ⟨l, hl⟩ := hB.exists_isLeadingEntry (h.left k) hk.1 hk.2
        have hil : i ≠ l := by
          rintro rfl
          exact hik (hA.row_unique (hback hl) hk)
        rw [hA.eq_zero_of_ne_of_isLeadingEntry hik hk, hB.eq_zero_of_ne_of_isLeadingEntry hil hl]
    exact sub_eq_zero.mp hsub

end IsReducedRowEchelon
end Matrix
