import WorkedAlgebra.Proofs.Expr.Nesting

/-!
# The operator applied last

* **`strength_le_of_foldl_later`**: the operator found binds loosest.
* **`Nested.root?_append_operator`**: when it is the one at which a list is split.
-/

namespace WorkedAlgebra

theorem Operator.strength_pos (op : Operator) : 1 ≤ op.strength := by
  cases op <;> decide

theorem Operator.isUnary_iff (op : Operator) : op.isUnary = true ↔ op.strength = 4 := by
  cases op <;> decide

theorem Operator.strength_le (op : Operator) : op.strength ≤ 4 := by
  cases op <;> decide

theorem Operator.isBinary_iff (op : Operator) : op.isBinary = true ↔ op.strength < 4 := by
  cases op <;> decide

theorem Operator.isBinary_eq_not (op : Operator) : op.isBinary = !op.isUnary := by
  cases op <;> rfl

namespace Window

theorem replaces_eq_true {op candidate : Operator} :
    replaces op candidate = true ↔
      op.strength < 4 ∧ op.strength ≤ candidate.strength := by
  have hu := op.isUnary_iff
  have hc := candidate.isUnary_iff
  have := op.strength_le
  have := candidate.strength_le
  rw [replaces]
  cases h : op.isUnary <;> cases h' : candidate.isUnary <;> simp_all <;> omega

/-- The candidate for the operator applied last after one more operator. -/
def later (candidate : Option (Nat × Operator)) (p : Nat × Operator) : Option (Nat × Operator) :=
  if candidate.all fun c => replaces p.2 c.2 then some p else candidate

theorem later_eq (candidate : Option (Nat × Operator)) (p : Nat × Operator) :
    later candidate p = some p ∧ (∀ c ∈ candidate, replaces p.2 c.2 = true) ∨
      later candidate p = candidate ∧ ∃ c ∈ candidate, replaces p.2 c.2 = false := by
  rw [later]
  cases candidate with
  | none => exact .inl ⟨rfl, by simp⟩
  | some c =>
    cases h : replaces p.2 c.2 with
    | true => exact .inl ⟨by simp [h], by simp [h]⟩
    | false => exact .inr ⟨by simp [h], c, by simp [h]⟩

/-- **The search for the operator applied last is a fold over the operators outside brackets.** -/
theorem rootFrom_eq_foldl (i depth : Nat) (candidate : Option (Nat × Operator))
    (w : List Token) :
    rootFrom i depth candidate w = (outerFrom i depth w).foldl later candidate := by
  fun_induction rootFrom i depth candidate w with
  | case1 => rfl
  | case2 i depth candidate w ih => rw [ih, outerFrom]
  | case3 i depth candidate w ih => rw [ih, outerFrom]
  | case4 i depth candidate v w ih => rw [ih, outerFrom]
  | case5 i depth candidate op w h ih =>
    rw [ih, outerFrom, if_pos h.1, List.foldl_cons, later, if_pos h.2]
  | case6 i depth candidate op w h ih =>
    rw [ih, outerFrom]
    by_cases hd : depth = 0
    · rw [if_pos hd, List.foldl_cons, later, if_neg fun hc => h ⟨hd, hc⟩]
    · rw [if_neg hd]

theorem root?_eq_foldl (w : List Token) : root? w = (outerFrom 0 0 w).foldl later none :=
  (root?_eq_rootFrom w).trans (rootFrom_eq_foldl 0 0 none w)

/-- **What the search found comes from before, or it replaces the candidate where it stands**, and
nothing after it would replace it. -/
theorem foldl_later_cases {ps : List (Nat × Operator)} {candidate : Option (Nat × Operator)}
    {q : Nat × Operator} (h : ps.foldl later candidate = some q) :
    (candidate = some q ∧ ∀ p ∈ ps, replaces p.2 q.2 = false) ∨
      ∃ l r, ps = l ++ q :: r ∧ (∀ c ∈ l.foldl later candidate, replaces q.2 c.2 = true) ∧
        ∀ p ∈ r, replaces p.2 q.2 = false := by
  induction ps generalizing candidate with
  | nil => exact .inl ⟨h, by simp⟩
  | cons p ps ih =>
    rcases ih h with ⟨hq, hps⟩ | ⟨l, r, rfl, hl, hr⟩
    · rcases later_eq candidate p with ⟨hp, hc⟩ | ⟨hp, c, hcm, hr⟩
      · obtain rfl : p = q := Option.some.inj (hp.symm.trans hq)
        exact .inr ⟨[], ps, rfl, hc, hps⟩
      · obtain rfl : candidate = some q := hp.symm.trans hq
        obtain rfl := Option.some.inj hcm
        exact .inl ⟨rfl, List.forall_mem_cons.mpr ⟨hr, hps⟩⟩
    · exact .inr ⟨p :: l, r, rfl, hl, hr⟩

theorem exists_append_of_foldl_later {ps : List (Nat × Operator)} {q : Nat × Operator}
    (h : ps.foldl later none = some q) :
    ∃ l r, ps = l ++ q :: r ∧ (∀ c ∈ l.foldl later none, replaces q.2 c.2 = true) ∧
      ∀ p ∈ r, replaces p.2 q.2 = false :=
  (foldl_later_cases h).resolve_left fun hq => nomatch hq.1

theorem mem_of_foldl_later {ps : List (Nat × Operator)} {candidate : Option (Nat × Operator)}
    {q : Nat × Operator} (h : ps.foldl later candidate = some q) : candidate = some q ∨ q ∈ ps := by
  rcases foldl_later_cases h with ⟨hq, -⟩ | ⟨l, r, rfl, -, -⟩
  · exact .inl hq
  · exact .inr (by simp)

theorem isSome_foldl_later (ps : List (Nat × Operator)) (q : Nat × Operator) :
    (ps.foldl later (some q)).isSome := by
  induction ps generalizing q with
  | nil => rfl
  | cons p ps ih =>
    rcases later_eq (some q) p with ⟨hp, _⟩ | ⟨hp, _⟩
    · rw [List.foldl_cons, hp]
      exact ih p
    · rw [List.foldl_cons, hp]
      exact ih q

/-- **There is an operator applied last unless none stands outside brackets.** -/
theorem root?_eq_none_iff {w : List Token} : root? w = none ↔ outerFrom 0 0 w = [] := by
  rw [root?_eq_foldl]
  cases outerFrom 0 0 w with
  | nil => exact iff_of_true rfl rfl
  | cons p ps =>
    have hp : later none p = some p := rfl
    have hs := isSome_foldl_later ps p
    refine iff_of_false (fun h => ?_) (by simp)
    rw [List.foldl_cons, hp] at h
    rw [h] at hs
    cases hs

theorem mem_outerFrom_of_root? {w : List Token} {p : Nat × Operator} (h : root? w = some p) :
    p ∈ outerFrom 0 0 w := by
  rw [root?_eq_foldl] at h
  rcases mem_of_foldl_later h with h | h
  · exact absurd h (by simp)
  · exact h

/-- **The operator found binds loosest.** -/
theorem strength_le_of_foldl_later {ps : List (Nat × Operator)}
    {candidate : Option (Nat × Operator)} {q : Nat × Operator}
    (h : ps.foldl later candidate = some q) :
    (∀ c ∈ candidate, q.2.strength ≤ c.2.strength) ∧ ∀ p ∈ ps, q.2.strength ≤ p.2.strength := by
  induction ps generalizing candidate with
  | nil =>
    refine ⟨fun c hc => ?_, by simp⟩
    rw [Option.mem_def.mp hc, List.foldl_nil, Option.some.injEq] at h
    exact Nat.le_of_eq (by rw [h])
  | cons p ps ih =>
    obtain ⟨hc, hps⟩ := ih h
    -- the first operator either replaces the candidate or binds at least as strongly
    rcases later_eq candidate p with ⟨hp, hr⟩ | ⟨hp, c, hcm, hr⟩
    · have hqp : q.2.strength ≤ p.2.strength := hc p hp
      refine ⟨fun c hcm => Nat.le_trans hqp (replaces_eq_true.mp (hr c hcm)).2, fun p' hp' => ?_⟩
      rcases List.mem_cons.mp hp' with rfl | hp'
      · exact hqp
      · exact hps p' hp'
    · rw [hp] at hc
      refine ⟨hc, fun p' hp' => ?_⟩
      rcases List.mem_cons.mp hp' with rfl | hp'
      · have hqc := hc c hcm
        have hpc : ¬ (p'.2.strength < 4 ∧ p'.2.strength ≤ c.2.strength) := by
          rw [← replaces_eq_true, hr]; simp
        have := c.2.strength_le
        omega
      · exact hps p' hp'

theorem strength_le_of_root? {w : List Token} {q : Nat × Operator} (h : root? w = some q) :
    ∀ p ∈ outerFrom 0 0 w, q.2.strength ≤ p.2.strength := by
  rw [root?_eq_foldl] at h
  exact (strength_le_of_foldl_later h).2

theorem not_replaces_of_foldl_later {ps : List (Nat × Operator)} {q : Nat × Operator}
    (h : ps.foldl later (some q) = some q) (hq : q ∉ ps) :
    ∀ p ∈ ps, replaces p.2 q.2 = false := by
  rcases foldl_later_cases h with ⟨-, hps⟩ | ⟨l, r, rfl, -, -⟩
  · exact hps
  · exact absurd (by simp) hq

theorem foldl_later_of_not_replaces {ps : List (Nat × Operator)} {q : Nat × Operator}
    (h : ∀ p ∈ ps, replaces p.2 q.2 = false) : ps.foldl later (some q) = some q := by
  induction ps with
  | nil => rfl
  | cons p ps ih =>
    have hp : later (some q) p = some q := by
      rw [later, Option.all_some, h p List.mem_cons_self, if_neg Bool.false_ne_true]
    rw [List.foldl_cons, hp, ih fun p' hp' => h p' (List.mem_cons_of_mem _ hp')]

/-! ## A list that is split at an operator -/

theorem Nested.outerFrom_append_operator {l : List Token} (hl : Nested l) (i : Nat)
    (op : Operator) (r : List Token) :
    outerFrom i 0 (l ++ .operator op :: r) =
      outerFrom i 0 l ++ (i + l.length, op) :: outerFrom (i + l.length + 1) 0 r := by
  rw [hl.outerFrom_append, outerFrom_operator]

theorem Nested.root?_append_operator {l : List Token} (hl : Nested l) (op : Operator)
    (r : List Token) :
    root? (l ++ .operator op :: r) = some (l.length, op) ↔
      (∀ c ∈ root? l, replaces op c.2 = true) ∧
        ∀ p ∈ outerFrom (l.length + 1) 0 r, replaces p.2 op = false := by
  have hr : ∀ p ∈ outerFrom (l.length + 1) 0 r, l.length < p.1 := fun p hp =>
    (bounds_of_mem_outerFrom hp).1
  rw [root?_eq_foldl, hl.outerFrom_append_operator, List.foldl_append, List.foldl_cons,
    Nat.zero_add, ← root?_eq_foldl]
  constructor
  · intro h
    rcases later_eq (root? l) (l.length, op) with ⟨hp, hc⟩ | ⟨hp, _⟩
    · rw [hp] at h
      exact ⟨hc, not_replaces_of_foldl_later h fun hm => absurd (hr _ hm) (Nat.lt_irrefl _)⟩
    · rw [hp] at h
      rcases mem_of_foldl_later h with hq | hq
      · exact absurd (lt_of_root? hq) (Nat.lt_irrefl _)
      · exact absurd (hr _ hq) (Nat.lt_irrefl _)
  · rintro ⟨hc, hps⟩
    have hp : later (root? l) (l.length, op) = some (l.length, op) := by
      rcases later_eq (root? l) (l.length, op) with ⟨hp, _⟩ | ⟨_, c, hcm, hn⟩
      · exact hp
      · exact absurd (hc c hcm) (by rw [hn]; simp)
    rw [hp, foldl_later_of_not_replaces hps]

end Window
end WorkedAlgebra
