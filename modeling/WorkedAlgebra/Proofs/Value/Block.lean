import WorkedAlgebra.Proofs.Value.Entries
import WorkedAlgebra.Value.Block

/-!
# Blocks that are matrices

* **`Block.toMatrix?_identity`**: an identity block is the identity matrix if its size allows it.
* **`Block.made_isFull_iff`**: when a block has as many entries as its sizes say.
-/

namespace WorkedAlgebra.Block

variable {rows cols n : UInt64} {entries : List ℚ} {display : DisplayMode}

/-- A block is **full** if it has as many entries as the exact product of its sizes. -/
def IsFull (b : Block) : Prop :=
  b.entries.length = b.rows.toNat * b.cols.toNat

instance (b : Block) : Decidable b.IsFull :=
  inferInstanceAs (Decidable (b.entries.length = b.rows.toNat * b.cols.toNat))

theorem toNat_mul_iff :
    (rows * cols).toNat = rows.toNat * cols.toNat ↔ rows.toNat * cols.toNat < UInt64.size := by
  rw [UInt64.toNat_mul]
  exact Nat.mod_eq_iff_lt (by decide)

theorem ofEntries_eq_ok_iff {b : Block} :
    ofEntries rows cols entries display = .ok b ↔
      0 < rows.toNat ∧ 0 < cols.toNat ∧
        entries.length = rows.toNat * cols.toNat % UInt64.size ∧
        b = ⟨rows, cols, entries, display⟩ := by
  have hpos (w : UInt64) : 0 < w.toNat ↔ w ≠ 0 := by
    rw [Nat.pos_iff_ne_zero, Ne, Ne, ← UInt64.toNat_inj, UInt64.toNat_zero]
  have hsize : (rows * cols).toNat = rows.toNat * cols.toNat % UInt64.size := UInt64.toNat_mul ..
  rw [ofEntries, hpos, hpos, hsize]
  split_ifs with hzero hfits
  · exact iff_of_false nofun fun ⟨hrows, hcols, _⟩ => hzero.elim hrows hcols
  · obtain ⟨hrows, hcols⟩ := not_or.mp hzero
    exact ⟨fun h => ⟨hrows, hcols, hfits, (Except.ok.inj h).symm⟩, fun h => by rw [h.2.2.2]⟩
  · exact iff_of_false nofun fun ⟨_, _, h, _⟩ => hfits h

/-- The entries of an identity block, as many of them as the word `n * n` says. -/
def identityEntries (n : UInt64) : List ℚ :=
  (List.range (n * n).toNat).map fun i => if i / n.toNat = i % n.toNat then 1 else 0

@[simp] theorem length_identityEntries : (identityEntries n).length = (n * n).toNat := by
  simp [identityEntries]

theorem identity_eq_ok (h : n ≠ 0) : identity n = .ok ⟨n, n, identityEntries n, .fraction⟩ := by
  unfold identity ofEntries
  rw [if_neg (by simpa using h), if_pos (by simp)]
  rfl

theorem identity_zero : identity 0 = .error .emptyMatrix := rfl

theorem identityEntries_eq (h : n.toNat * n.toNat < UInt64.size) :
    identityEntries n = (Grid.identity n.toNat).entries := by
  refine Grid.eq_entries _ (by rw [length_identityEntries, toNat_mul_iff.mpr h]) fun i j => ?_
  have hpos : 0 < n.toNat := Nat.zero_lt_of_lt i.isLt
  have hlt : i.val * n.toNat + j.val < n.toNat * n.toNat := by
    have := Nat.mul_le_mul_right n.toNat (Nat.succ_le_of_lt i.isLt)
    have := j.isLt
    grind
  have hdiv : (i.val * n.toNat + j.val) / n.toNat = i.val := by
    rw [Nat.mul_comm, Nat.mul_add_div hpos, Nat.div_eq_of_lt j.isLt, Nat.add_zero]
  have hmod : (i.val * n.toNat + j.val) % n.toNat = j.val := by
    rw [Nat.mul_add_mod_self_right, Nat.mod_eq_of_lt j.isLt]
  unfold identityEntries
  rw [toNat_mul_iff.mpr h, List.getElem?_map, List.getElem?_range hlt, Grid.identity,
    Grid.get_ofFn]
  simp only [Option.map_some, hdiv, hmod, Fin.ext_iff]

theorem toMatrix?_identity (hn : n ≠ 0) (h : n.toNat * n.toNat < UInt64.size) :
    ∃ hpos : 0 < n.toNat, toMatrix? ⟨n, n, identityEntries n, .fraction⟩ =
      some ⟨n.toNat, n.toNat, .identity n.toNat, .fraction, hpos, hpos⟩ := by
  have hpos : 0 < n.toNat := Nat.pos_of_ne_zero fun hz => hn (UInt64.toNat_inj.mp hz)
  refine ⟨hpos, ?_⟩
  have hsize : (identityEntries n).length = n.toNat * n.toNat := by
    rw [length_identityEntries, toNat_mul_iff.mpr h]
  unfold toMatrix?
  rw [dif_pos ⟨hpos, hpos, hsize⟩]
  simp only [identityEntries_eq h, Grid.ofEntries_entries]

theorem toMatrix?_identity_eq_none (h : ¬ n.toNat * n.toNat < UInt64.size) :
    toMatrix? ⟨n, n, identityEntries n, .fraction⟩ = none := by
  unfold toMatrix?
  refine dif_neg fun hfit => h (toNat_mul_iff.mp ?_)
  rw [← length_identityEntries]
  exact hfit.2.2

/-! ## Sizes whose product does not fit -/

theorem isFull_iff_of_ofEntries {b : Block} (h : ofEntries rows cols entries display = .ok b) :
    b.IsFull ↔ rows.toNat * cols.toNat < UInt64.size := by
  obtain ⟨-, -, hlength, rfl⟩ := ofEntries_eq_ok_iff.mp h
  rw [IsFull, hlength]
  exact Nat.mod_eq_iff_lt (by decide)

theorem getElem?_identityEntries (h : n.toNat * n.toNat < UInt64.size) {i j : ℕ}
    (hi : i < n.toNat) (hj : j < n.toNat) :
    (identityEntries n)[i * n.toNat + j]? = some (if i = j then 1 else 0) := by
  have hentry := (Grid.identity n.toNat).getElem?_entries ⟨i, hi⟩ ⟨j, hj⟩
  rw [identityEntries_eq h, hentry, Grid.identity, Grid.get_ofFn]
  simp only [Fin.mk.injEq]

/-- **A block is full exactly if the product of its sizes fits a word.** The number of entries is
compared with the product after wrapping around. -/
theorem made_isFull_iff (rows cols n : UInt64) (entries : List ℚ) (display : DisplayMode) :
    ((∃ b, ofEntries rows cols entries display = .ok b) ↔
      1 ≤ rows.toNat ∧ 1 ≤ cols.toNat ∧
        entries.length = rows.toNat * cols.toNat % UInt64.size) ∧
    (rows.toNat * cols.toNat < UInt64.size →
      ((∃ b, ofEntries rows cols entries display = .ok b) ↔
        1 ≤ rows.toNat ∧ 1 ≤ cols.toNat ∧ entries.length = rows.toNat * cols.toNat)) ∧
    (∀ b, ofEntries rows cols entries display = .ok b →
      b = ⟨rows, cols, entries, display⟩ ∧
        (b.IsFull ↔ rows.toNat * cols.toNat < UInt64.size)) ∧
    (1 ≤ n.toNat →
      ∃ b, identity n = .ok b ∧ b.rows = n ∧ b.cols = n ∧
        (b.IsFull ↔ n.toNat * n.toNat < UInt64.size) ∧
        (b.IsFull → ∀ i j, i < n.toNat → j < n.toNat →
          b.entries[i * n.toNat + j]? = some (if i = j then 1 else 0))) := by
  have hmade : (∃ b, ofEntries rows cols entries display = .ok b) ↔
      1 ≤ rows.toNat ∧ 1 ≤ cols.toNat ∧
        entries.length = rows.toNat * cols.toNat % UInt64.size := by
    constructor
    · rintro ⟨b, hb⟩
      obtain ⟨hrows, hcols, hlength, -⟩ := ofEntries_eq_ok_iff.mp hb
      exact ⟨hrows, hcols, hlength⟩
    · rintro ⟨hrows, hcols, hlength⟩
      exact ⟨_, ofEntries_eq_ok_iff.mpr ⟨hrows, hcols, hlength, rfl⟩⟩
  refine ⟨hmade, fun hfits => ?_, fun b hb => ?_, fun hn => ?_⟩
  · rw [hmade, Nat.mod_eq_of_lt hfits]
  · exact ⟨(ofEntries_eq_ok_iff.mp hb).2.2.2, isFull_iff_of_ofEntries hb⟩
  · have hzero : n ≠ 0 := by
      rintro rfl
      exact absurd hn (by decide)
    have hfull : IsFull ⟨n, n, identityEntries n, .fraction⟩ ↔
        n.toNat * n.toNat < UInt64.size := by
      rw [IsFull, length_identityEntries, toNat_mul_iff]
    exact ⟨_, identity_eq_ok hzero, rfl, rfl, hfull, fun h i j hi hj =>
      getElem?_identityEntries (hfull.mp h) hi hj⟩

/-- Two rows of `2 ^ 63` entries each are made of no entries at all, and so is an identity block of
size `2 ^ 32`. -/
theorem wide_blocks_unfilled :
    (∃ b, ofEntries 2 9223372036854775808 [] .fraction = .ok b ∧ b.entries = [] ∧ ¬ b.IsFull) ∧
      ∃ b, identity 4294967296 = .ok b ∧ b.entries = [] ∧ ¬ b.IsFull := by
  constructor
  · exact ⟨⟨2, 9223372036854775808, [], .fraction⟩, rfl, rfl, by decide⟩
  · exact ⟨⟨4294967296, 4294967296, [], .fraction⟩, rfl, rfl, by decide⟩

end WorkedAlgebra.Block
