import WorkedAlgebra.Method.MatrixArithmetic
import WorkedAlgebra.Proofs.Value.Grid

/-!
# Arithmetic on matrices and what it comes to

* `Answers` — what an operation comes to, apart from the steps.
-/

namespace WorkedAlgebra

/-- An operation **comes to** an answer. -/
def Answers (r : Except MethodFault Solution) (v : Value) : Prop :=
  ∃ s, r = .ok s ∧ s.answer = v

namespace MatrixArithmetic

variable {n k d : ℕ} (da db : DisplayMode)

/-- **Matrices whose shapes fit have a product.** -/
theorem multiply_eq_ok (a : Grid n k) (b : Grid k d) (hn : 0 < n) (hk hk' : 0 < k) (hd : 0 < d) :
    ∃ steps, multiply ⟨n, k, a, da, hn, hk⟩ ⟨k, d, b, db, hk', hd⟩ =
      .ok (.record .matrixMultiply
        [.matrix ⟨n, k, a, da, hn, hk⟩, .matrix ⟨k, d, b, db, hk', hd⟩]
        (.matrix ⟨n, d, a.mul b, .resolve [da, db], hn, hd⟩) steps) := by
  have hb : (Grid.ofFn fun l j => b.get (l.cast rfl) j) = b := by
    ext l j
    rw [Grid.get_ofFn, Fin.cast_eq_self]
  rw [multiply, dif_pos rfl]
  dsimp only
  rw [hb]
  exact ⟨_, rfl⟩

theorem answers_multiply (a : Grid n k) (b : Grid k d) (hn : 0 < n) (hk hk' : 0 < k)
    (hd : 0 < d) :
    Answers (multiply ⟨n, k, a, da, hn, hk⟩ ⟨k, d, b, db, hk', hd⟩)
      (.matrix ⟨n, d, a.mul b, .resolve [da, db], hn, hd⟩) := by
  obtain ⟨steps, h⟩ := multiply_eq_ok da db a b hn hk hk' hd
  exact ⟨_, h, rfl⟩

theorem answers_transpose (a : Grid n k) (hn : 0 < n) (hk : 0 < k) :
    Answers (transpose ⟨n, k, a, da, hn, hk⟩)
      (.matrix ⟨k, n, a.transpose, .resolve [da], hk, hn⟩) :=
  ⟨_, rfl, rfl⟩

theorem answers_plus (a b : Grid n k) (hn : 0 < n) (hk : 0 < k) :
    Answers (plus ⟨n, k, a, da, hn, hk⟩ ⟨n, k, b, db, hn, hk⟩)
      (.matrix ⟨n, k, .ofFn fun i j => a.get i j + b.get i j, .resolve [da, db], hn, hk⟩) :=
  ⟨_, dif_pos ⟨rfl, rfl⟩, rfl⟩

theorem answers_scale (side : Side) (s : Scalar) (a : Grid n k) (hn : 0 < n) (hk : 0 < k) :
    Answers (scale side s ⟨n, k, a, da, hn, hk⟩)
      (.matrix ⟨n, k, .ofFn fun i j => s.value * a.get i j, .resolve [s.display, da], hn, hk⟩) :=
  ⟨_, rfl, rfl⟩

def AnswersIdentity (n : ℕ) (r : Except MethodFault Solution) : Prop :=
  ∃ s display hr hc, r = .ok s ∧ s.answer = .matrix ⟨n, n, .identity n, display, hr, hc⟩

theorem answersIdentity_multiply {a b : Grid n n} (hab : a.toMatrix * b.toMatrix = 1)
    (hn hn' hn'' hn''' : 0 < n) :
    AnswersIdentity n (multiply ⟨n, n, a, da, hn, hn'⟩ ⟨n, n, b, db, hn'', hn'''⟩) := by
  have hmul : a.mul b = .identity n := by
    refine Grid.toMatrix_injective ?_
    rw [Grid.toMatrix_mul, Grid.toMatrix_identity, hab]
  obtain ⟨steps, h⟩ := multiply_eq_ok da db a b hn hn' hn'' hn'''
  rw [hmul] at h
  exact ⟨_, _, hn, hn''', h, rfl⟩

end MatrixArithmetic
end WorkedAlgebra
