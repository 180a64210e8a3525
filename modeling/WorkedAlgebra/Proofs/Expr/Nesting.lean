import WorkedAlgebra.Expr.Window

/-!
# Nested brackets

* **`Nested.unwrap?_enclose`**, **`Nested.unwrap?_append`**: a pair of brackets around a nested list
  is recognised, and a nested list with something after it is not enclosed.
-/

namespace WorkedAlgebra.Window

/-- The token lists whose brackets nest properly. -/
inductive Nested : List Token → Prop
  | nil : Nested []
  | atom {t : Token} {w : List Token} (plain : t.bracket? = none) (rest : Nested w) :
      Nested (t :: w)
  | group {v w : List Token} (inside : Nested v) (rest : Nested w) :
      Nested (.bracket .opening :: (v ++ .bracket .closing :: w))

theorem Nested.plain_of_singleton {t : Token} (h : Nested [t]) : t.bracket? = none := by
  generalize hw : [t] = w at h
  cases h with
  | nil => cases hw
  | atom plain _ => exact (List.cons.inj hw).1 ▸ plain
  | group => simp at hw

/-- A token list in a pair of brackets. -/
def enclose (w : List Token) : List Token :=
  .bracket .opening :: (w ++ [.bracket .closing])

theorem Nested.enclose {w : List Token} (hw : Nested w) : Nested (enclose w) :=
  hw.group .nil

theorem Nested.append {v w : List Token} (hv : Nested v) (hw : Nested w) : Nested (v ++ w) := by
  induction hv with
  | nil => exact hw
  | atom plain _ ih => exact ih.atom plain
  | group inside _ _ ih =>
    rw [List.cons_append, List.append_assoc, List.cons_append]
    exact inside.group ih

theorem enclose_replicate (n : Nat) :
    enclose (List.replicate n (.bracket .opening) ++ List.replicate n (.bracket .closing)) =
      List.replicate (n + 1) (.bracket .opening) ++ List.replicate (n + 1) (.bracket .closing) := by
  rw [enclose, List.append_assoc, ← List.replicate_succ', ← List.cons_append, ← List.replicate_succ]

theorem nested_replicate (n : Nat) :
    Nested (List.replicate n (.bracket .opening) ++ List.replicate n (.bracket .closing)) := by
  induction n with
  | zero => exact .nil
  | succ n ih => exact enclose_replicate n ▸ ih.enclose

/-- **The bracket that closes a nested list is the only one that does.** -/
theorem Nested.eq_of_append_closing {v v' x x' : List Token} (hv : Nested v) (hv' : Nested v')
    (h : v ++ .bracket .closing :: x = v' ++ .bracket .closing :: x') : v = v' := by
  induction hv generalizing v' x x' with
  | nil =>
    cases hv' with
    | nil => rfl
    | atom plain _ =>
      obtain ⟨rfl, -⟩ := List.cons.inj h
      exact absurd plain (by simp [Token.bracket?])
    | group => exact absurd (List.cons.inj h).1 (by simp)
  | @atom t v plain _ ih =>
    cases hv' with
    | nil =>
      obtain ⟨rfl, -⟩ := List.cons.inj h
      exact absurd plain (by simp [Token.bracket?])
    | atom _ rest =>
      obtain ⟨rfl, htail⟩ := List.cons.inj h
      rw [ih rest htail]
    | group =>
      obtain ⟨rfl, -⟩ := List.cons.inj h
      exact absurd plain (by simp [Token.bracket?])
  | @group u v _ _ ih₁ ih₂ =>
    cases hv' with
    | nil => exact absurd (List.cons.inj h).1 (by simp)
    | atom plain _ =>
      obtain ⟨rfl, -⟩ := List.cons.inj h
      exact absurd plain (by simp [Token.bracket?])
    | @group u' v' inside rest =>
      simp only [List.cons_append, List.append_assoc] at h
      have hu := (List.cons.inj h).2
      obtain rfl := ih₁ inside hu
      have hx := (List.cons.inj (List.append_cancel_left hu)).2
      rw [ih₂ rest hx]

/-! ## Enclosing brackets -/

theorem eq_enclose_of_unwrap? {w inner : List Token} (h : unwrap? w = some inner) :
    w = enclose inner := by
  unfold unwrap? at h
  split at h
  · next rest =>
    split at h
    · next hc =>
      obtain rfl := Option.some.inj h
      obtain ⟨ys, rfl⟩ := List.getLast?_eq_some_iff.mp hc.1
      rw [enclose, List.dropLast_concat]
    · exact absurd h (by simp)
  · exact absurd h (by simp)

theorem closesWithin_cons_of_plain {t : Token} (ht : t.bracket? = none) (n : Nat)
    (w : List Token) : closesWithin (n + 1) (t :: w) = closesWithin (n + 1) w := by
  cases t with
  | value v => rfl
  | operator op => rfl
  | bracket b => exact absurd ht (by simp [Token.bracket?])

theorem Nested.closesWithin_append {v : List Token} (hv : Nested v) (n : Nat) (w : List Token) :
    closesWithin (n + 1) (v ++ w) = closesWithin (n + 1) w := by
  induction hv generalizing n w with
  | nil => rfl
  | atom plain _ ih => rw [List.cons_append, closesWithin_cons_of_plain plain, ih]
  | group _ _ ih₁ ih₂ =>
    rw [List.cons_append, List.append_assoc, List.cons_append, closesWithin, ih₁, closesWithin, ih₂]

theorem Nested.closesWithin_eq_false {v : List Token} (hv : Nested v) (n : Nat) :
    closesWithin (n + 1) v = false := by
  have h := hv.closesWithin_append n []
  rwa [List.append_nil] at h

/-- **A pair of brackets around a nested list is recognised.** -/
theorem Nested.unwrap?_enclose {w : List Token} (hw : Nested w) :
    unwrap? (Window.enclose w) = some w := by
  have hc : ¬ closesWithin 1 w := by rw [hw.closesWithin_eq_false]; simp
  rw [Window.enclose, unwrap?, List.dropLast_concat, if_pos ⟨by simp, hc⟩]

theorem unwrap?_cons_of_plain {t : Token} (ht : t.bracket? = none) (w : List Token) :
    unwrap? (t :: w) = none := by
  cases t with
  | value v => rfl
  | operator op => rfl
  | bracket b => exact absurd ht (by simp [Token.bracket?])

/-- **A nested list with something after it is not enclosed.** -/
theorem Nested.unwrap?_append {v w : List Token} (hv : Nested v) (hv₀ : v ≠ []) (hw₀ : w ≠ []) :
    unwrap? (v ++ w) = none := by
  cases hv with
  | nil => exact absurd rfl hv₀
  | atom plain _ => exact unwrap?_cons_of_plain plain _
  | @group v₁ v₂ inside rest =>
    have hd : (v₁ ++ .bracket .closing :: v₂ ++ w).dropLast =
        v₁ ++ .bracket .closing :: (v₂ ++ w.dropLast) := by
      rw [List.append_assoc, List.cons_append, ← List.dropLast_append_of_ne_nil hw₀,
        ← List.dropLast_cons_of_ne_nil (by simp [hw₀]), List.dropLast_append_of_ne_nil (by simp)]
    have hc : closesWithin 1 (v₁ ++ .bracket .closing :: (v₂ ++ w.dropLast)) = true := by
      rw [inside.closesWithin_append, closesWithin, closesWithin]
    rw [List.cons_append, unwrap?, hd, if_neg (fun h => h.2 hc)]

/-! ## Operators outside brackets -/

/-- The operators outside all brackets with their positions, from position `i` on. -/
def outerFrom (i depth : Nat) : List Token → List (Nat × Operator)
  | [] => []
  | .bracket .opening :: w => outerFrom (i + 1) (depth + 1) w
  | .bracket .closing :: w => outerFrom (i + 1) (depth - 1) w
  | .value _ :: w => outerFrom (i + 1) depth w
  | .operator op :: w =>
    if depth = 0 then (i, op) :: outerFrom (i + 1) depth w else outerFrom (i + 1) depth w

theorem outerFrom_operator (i : Nat) (op : Operator) (w : List Token) :
    outerFrom i 0 (.operator op :: w) = (i, op) :: outerFrom (i + 1) 0 w := by
  rw [outerFrom, if_pos rfl]

theorem outerFrom_cons_inside {t : Token} (ht : t.bracket? = none) (i depth : Nat)
    (w : List Token) : outerFrom i (depth + 1) (t :: w) = outerFrom (i + 1) (depth + 1) w := by
  cases t with
  | value v => rfl
  | operator op => rw [outerFrom, if_neg (by omega)]
  | bracket b => exact absurd ht (by simp [Token.bracket?])

theorem bounds_of_mem_outerFrom {i depth : Nat} {w : List Token} {p : Nat × Operator}
    (h : p ∈ outerFrom i depth w) : i ≤ p.1 ∧ p.1 < i + w.length := by
  induction w generalizing i depth with
  | nil => exact absurd h (by simp [outerFrom])
  | cons t w ih =>
    rw [List.length_cons]
    have step : ∀ {depth : Nat}, p ∈ outerFrom (i + 1) depth w →
        i ≤ p.1 ∧ p.1 < i + (w.length + 1) := by
      intro depth hp
      have := ih hp
      omega
    cases t with
    | value v => exact step h
    | operator op =>
      rw [outerFrom] at h
      by_cases hd : depth = 0
      · rw [if_pos hd] at h
        rcases List.mem_cons.mp h with rfl | h
        · dsimp only; omega
        · exact step h
      · rw [if_neg hd] at h
        exact step h
    | bracket b => cases b <;> exact step h

theorem Nested.outerFrom_append_inside {v : List Token} (hv : Nested v) (i depth : Nat)
    (w : List Token) :
    outerFrom i (depth + 1) (v ++ w) = outerFrom (i + v.length) (depth + 1) w := by
  induction hv generalizing i depth w with
  | nil => rfl
  | atom plain _ ih =>
    rw [List.cons_append, outerFrom_cons_inside plain, ih, List.length_cons]
    congr 1
    omega
  | group _ _ ih₁ ih₂ =>
    rw [List.cons_append, List.append_assoc, List.cons_append, outerFrom, ih₁, outerFrom,
      Nat.add_sub_cancel, ih₂]
    congr 1
    simp only [List.length_cons, List.length_append]
    omega

theorem Nested.outerFrom_group {v : List Token} (hv : Nested v) (i : Nat) (w : List Token) :
    outerFrom i 0 (.bracket .opening :: (v ++ .bracket .closing :: w)) =
      outerFrom (i + v.length + 2) 0 w := by
  rw [outerFrom, hv.outerFrom_append_inside, outerFrom, Nat.add_sub_cancel]
  congr 1
  omega

/-- **The operators outside the brackets of two lists, the first of them nested, stand in the one
or in the other.** -/
theorem Nested.outerFrom_append {v : List Token} (hv : Nested v) (i : Nat) (w : List Token) :
    outerFrom i 0 (v ++ w) = outerFrom i 0 v ++ outerFrom (i + v.length) 0 w := by
  induction hv generalizing i with
  | nil => rfl
  | @atom t v plain _ ih =>
    have hi : i + 1 + v.length = i + (t :: v).length := by rw [List.length_cons]; omega
    cases t with
    | value x => rw [List.cons_append, outerFrom, ih, hi, outerFrom]
    | operator op =>
      rw [List.cons_append, outerFrom_operator, ih, hi, outerFrom_operator, List.cons_append]
    | bracket b => exact absurd plain (by simp [Token.bracket?])
  | @group v₁ v₂ inside _ _ ih =>
    have hi : i + v₁.length + 2 + v₂.length =
        i + (.bracket .opening :: (v₁ ++ .bracket .closing :: v₂) : List Token).length := by
      simp only [List.length_cons, List.length_append]
      omega
    rw [List.cons_append, List.append_assoc, List.cons_append, inside.outerFrom_group, ih, hi,
      inside.outerFrom_group]

theorem Nested.outerFrom_enclose {w : List Token} (hw : Nested w) (i : Nat) :
    outerFrom i 0 (Window.enclose w) = [] := by
  rw [Window.enclose, hw.outerFrom_group, outerFrom]

end WorkedAlgebra.Window
