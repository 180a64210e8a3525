import WorkedAlgebra.Proofs.Expr.Root

/-!
# Parts of a window

* **`Nested.of_split`**, **`Nested.of_mem_groups`**: what the second pass cuts out of a nested
  window is nested.
-/

namespace WorkedAlgebra.Window

/-! ## Slices and groups -/

theorem slice_append {start stop : Nat} (h : start ≤ stop) (w : List Token) :
    w.take start ++ (slice w start stop ++ w.drop stop) = w := by
  have ht : w.take start = (w.take stop).take start := by
    rw [List.take_take, Nat.min_eq_left h]
  rw [slice, ← List.append_assoc, ht, List.take_append_drop, List.take_append_drop]

theorem slice_append_append (l v r : List Token) :
    slice (l ++ (v ++ r)) l.length (l.length + v.length) = v := by
  rw [slice, ← List.append_assoc, ← List.length_append, List.take_left, List.drop_left]

theorem le_of_mem_groupsFrom {i depth start : Nat} {w : List Token} {g : Nat × Nat}
    (h : g ∈ groupsFrom i depth start w) (hs : 0 < depth → start ≤ i) : g.1 ≤ g.2 := by
  fun_induction groupsFrom i depth start w with
  | case1 => simp at h
  | case2 i depth start w ih =>
    refine ih h fun _ => ?_
    split
    · exact Nat.le_refl _
    · exact Nat.le_succ_of_le (hs (by omega))
  | case3 i start w ih =>
    rcases List.mem_cons.mp h with rfl | h
    · exact hs Nat.one_pos
    · exact ih h (by omega)
  | case4 i depth start w hd ih => exact ih h fun _ => Nat.le_succ_of_le (hs (by omega))
  | case5 i depth start t w _ _ ih => exact ih h fun hd => Nat.le_succ_of_le (hs hd)

/-- **A group is a stretch of its window.** -/
theorem exists_eq_append_of_mem_groups {w : List Token} {g : Nat × Nat} (h : g ∈ groups w) :
    ∃ l r, w = l ++ (slice w g.1 g.2 ++ r) ∧ l.length = g.1 := by
  have hle : g.1 ≤ g.2 := le_of_mem_groupsFrom h (by omega)
  have hlt := lt_of_mem_groupsFrom h
  refine ⟨w.take g.1, w.drop g.2, (slice_append hle w).symm, ?_⟩
  rw [List.length_take]
  omega

/-! ## Nested windows -/

theorem Nested.of_enclose {inner : List Token} (h : Nested (Window.enclose inner))
    (hu : unwrap? (Window.enclose inner) = some inner) : Nested inner := by
  generalize hw : Window.enclose inner = w at h
  rw [hw] at hu
  cases h with
  | nil => cases hw
  | atom plain _ =>
    rw [unwrap?_cons_of_plain plain] at hu
    cases hu
  | @group v r inside _ =>
    by_cases hr : r = []
    · subst hr
      have hv : unwrap? (Window.enclose v) = some v := inside.unwrap?_enclose
      obtain rfl : v = inner := Option.some.inj (hv.symm.trans hu)
      exact inside
    · -- the first bracket is closed before the end
      have hn := inside.enclose.unwrap?_append (by simp [Window.enclose]) hr
      rw [Window.enclose, List.cons_append, List.append_assoc, List.singleton_append, hu] at hn
      cases hn

theorem Nested.exists_of_mem_outerFrom {w : List Token} (hw : Nested w) {i : Nat}
    {p : Nat × Operator} (h : p ∈ outerFrom i 0 w) :
    ∃ l r, w = l ++ .operator p.2 :: r ∧ p.1 = i + l.length ∧ Nested l ∧ Nested r := by
  induction hw generalizing i with
  | nil => simp [outerFrom] at h
  | @atom t w plain rest ih =>
    have later (h : p ∈ outerFrom (i + 1) 0 w) :
        ∃ l r, t :: w = l ++ .operator p.2 :: r ∧ p.1 = i + l.length ∧ Nested l ∧ Nested r := by
      obtain ⟨l, r, rfl, hp, hl, hr⟩ := ih h
      exact ⟨t :: l, r, rfl, by rw [hp, List.length_cons]; omega, hl.atom plain, hr⟩
    cases t with
    | value v => exact later h
    | operator op =>
      rw [outerFrom_operator] at h
      rcases List.mem_cons.mp h with rfl | h
      · exact ⟨[], w, rfl, rfl, .nil, rest⟩
      · exact later h
    | bracket b => exact absurd plain (by simp [Token.bracket?])
  | @group v w inside rest _ ih =>
    rw [inside.outerFrom_group] at h
    obtain ⟨l, r, rfl, hp, hl, hr⟩ := ih h
    refine ⟨.bracket .opening :: (v ++ .bracket .closing :: l), r, by simp, ?_,
      inside.group hl, hr⟩
    simp only [hp, List.length_cons, List.length_append]
    omega

/-- **Both sides of the operator applied last in a nested window are nested.** -/
theorem Nested.of_split {l r : List Token} {op : Operator}
    (h : Nested (l ++ .operator op :: r))
    (hr : root? (l ++ .operator op :: r) = some (l.length, op)) : Nested l ∧ Nested r := by
  obtain ⟨l', r', hw, hl, hl', hr'⟩ := h.exists_of_mem_outerFrom (mem_outerFrom_of_root? hr)
  obtain ⟨rfl, hr⟩ := List.append_inj hw (by simpa using hl)
  obtain ⟨-, rfl⟩ := List.cons.inj hr
  exact ⟨hl', hr'⟩

theorem Nested.groupsFrom_append_inside {v : List Token} (hv : Nested v) (i depth start : Nat)
    (w : List Token) :
    groupsFrom i (depth + 1) start (v ++ w) = groupsFrom (i + v.length) (depth + 1) start w := by
  induction hv generalizing i depth w with
  | nil => rfl
  | @atom t v plain _ ih =>
    have ht : groupsFrom i (depth + 1) start (t :: (v ++ w)) =
        groupsFrom (i + 1) (depth + 1) start (v ++ w) := by
      cases t with
      | value v => rfl
      | operator op => rfl
      | bracket b => exact absurd plain (by simp [Token.bracket?])
    rw [List.cons_append, ht, ih, List.length_cons]
    congr 1
    omega
  | group _ _ ih₁ ih₂ =>
    rw [List.cons_append, List.append_assoc, List.cons_append, groupsFrom, if_neg (by omega), ih₁,
      groupsFrom, if_neg (by omega), Nat.add_sub_cancel, ih₂]
    congr 1
    simp only [List.length_cons, List.length_append]
    omega

theorem Nested.groupsFrom_group {v : List Token} (hv : Nested v) (i start : Nat)
    (w : List Token) :
    groupsFrom i 0 start (.bracket .opening :: (v ++ .bracket .closing :: w)) =
      (i + 1, i + 1 + v.length) :: groupsFrom (i + v.length + 2) 0 (i + 1) w := by
  rw [groupsFrom, if_pos rfl, hv.groupsFrom_append_inside, groupsFrom, if_pos rfl]
  congr 2
  omega

theorem Nested.exists_of_mem_groupsFrom {w : List Token} (hw : Nested w) {i start : Nat}
    {g : Nat × Nat} (h : g ∈ groupsFrom i 0 start w) :
    ∃ l v r, w = l ++ (v ++ r) ∧ g = (i + l.length, i + l.length + v.length) ∧ Nested v := by
  induction hw generalizing i start with
  | nil => simp [groupsFrom] at h
  | @atom t w plain _ ih =>
    have hg : g ∈ groupsFrom (i + 1) 0 start w := by
      cases t with
      | value v => exact h
      | operator op => exact h
      | bracket b => exact absurd plain (by simp [Token.bracket?])
    obtain ⟨l, v, r, rfl, rfl, hv⟩ := ih hg
    refine ⟨t :: l, v, r, rfl, ?_, hv⟩
    simp only [List.length_cons, Prod.mk.injEq]
    omega
  | @group u w inside _ _ ih =>
    rw [inside.groupsFrom_group] at h
    rcases List.mem_cons.mp h with rfl | h
    · exact ⟨[.bracket .opening], u, .bracket .closing :: w, rfl, rfl, inside⟩
    · obtain ⟨l, v, r, rfl, rfl, hv⟩ := ih h
      refine ⟨.bracket .opening :: (u ++ .bracket .closing :: l), v, r, by simp, ?_, hv⟩
      simp only [List.length_cons, List.length_append, Prod.mk.injEq]
      omega

theorem Nested.of_mem_groups {w : List Token} (hw : Nested w) {g : Nat × Nat}
    (h : g ∈ groups w) : Nested (slice w g.1 g.2) := by
  obtain ⟨l, v, r, rfl, rfl, hv⟩ := hw.exists_of_mem_groupsFrom h
  rwa [Nat.zero_add, slice_append_append]

end WorkedAlgebra.Window
