import WorkedAlgebra.Proofs.Expr.Enclosure
import WorkedAlgebra.Proofs.Expr.Loosest
import WorkedAlgebra.Proofs.Expr.Moved
import WorkedAlgebra.Proofs.Expr.Parts
import WorkedAlgebra.Proofs.Expr.Reading

/-!
# Groups without an operator between them

Several tokens without an operator outside their brackets are not read. What is wrong inside their
groups is reported first.

* **`Nested.mem_groups_iff`**: the search for groups finds the outermost pairs of brackets.
* **`buildAll_withoutOperator`**: the fault of a window without an operator outside its brackets.
-/

namespace WorkedAlgebra

namespace Window

/-- A **group** of a window: a matching pair of brackets outside all others, after `l`, around
`v`. -/
structure IsGroup (w l v : List Token) : Prop where
  outside : Nested l
  inside : Nested v
  stands : l ++ enclose v <+: w

/-! ## The groups of a nested window -/

theorem isGroup_cons_iff {t : Token} (plain : t.bracket? = none) {w l v : List Token} :
    IsGroup (t :: w) l v ↔ ∃ l', l = t :: l' ∧ IsGroup w l' v := by
  constructor
  · rintro ⟨outside, inside, stands⟩
    cases outside with
    | nil =>
      obtain ⟨rfl, -⟩ := List.cons_prefix_cons.mp stands
      exact absurd plain (by simp [Token.bracket?])
    | @atom u l' _ rest =>
      obtain ⟨rfl, later⟩ := List.cons_prefix_cons.mp stands
      exact ⟨l', rfl, rest, inside, later⟩
    | group =>
      obtain ⟨rfl, -⟩ := List.cons_prefix_cons.mp stands
      exact absurd plain (by simp [Token.bracket?])
  · rintro ⟨l', rfl, h⟩
    exact ⟨h.outside.atom plain, h.inside, List.cons_prefix_cons.mpr ⟨rfl, h.stands⟩⟩

theorem isGroup_group_iff {u w l v : List Token} (hu : Nested u) :
    IsGroup (.bracket .opening :: (u ++ .bracket .closing :: w)) l v ↔
      (l = [] ∧ v = u) ∨
        ∃ l', l = .bracket .opening :: (u ++ .bracket .closing :: l') ∧ IsGroup w l' v := by
  constructor
  · rintro ⟨outside, inside, r, hr⟩
    cases outside with
    | nil =>
      -- the bracket that closes the first one is the same for both
      simp only [enclose, List.nil_append, List.cons_append, List.append_assoc] at hr
      exact .inl ⟨rfl, inside.eq_of_append_closing hu (List.cons.inj hr).2⟩
    | atom plain _ =>
      obtain ⟨rfl, -⟩ := List.cons.inj hr
      exact absurd plain (by simp [Token.bracket?])
    | @group u' l' hu' rest =>
      simp only [List.cons_append, List.append_assoc] at hr
      have htail := (List.cons.inj hr).2
      obtain rfl := hu'.eq_of_append_closing hu htail
      have hw := (List.cons.inj (List.append_cancel_left htail)).2
      exact .inr ⟨l', rfl, rest, inside, r, by rw [List.append_assoc, hw]⟩
  · rintro (⟨rfl, rfl⟩ | ⟨l', rfl, outside, inside, r, rfl⟩)
    · exact ⟨.nil, hu, w, by simp [enclose]⟩
    · exact ⟨hu.group outside, inside, r, by simp⟩

theorem IsGroup.slice_eq {w l v : List Token} (h : IsGroup w l v) :
    slice w (l.length + 1) (l.length + 1 + v.length) = v := by
  obtain ⟨r, rfl⟩ := h.stands
  have hl : l ++ enclose v ++ r = (l ++ [.bracket .opening]) ++ (v ++ .bracket .closing :: r) := by
    simp [enclose]
  have hlen : l.length + 1 = (l ++ [.bracket .opening] : List Token).length := by simp
  rw [hl, hlen, slice_append_append]

theorem Nested.mem_groupsFrom_iff {w : List Token} (hw : Nested w) {i start : ℕ} {g : ℕ × ℕ} :
    g ∈ groupsFrom i 0 start w ↔
      ∃ l v, IsGroup w l v ∧ g = (i + l.length + 1, i + l.length + 1 + v.length) := by
  induction hw generalizing i start with
  | nil =>
    refine iff_of_false (by simp [groupsFrom]) ?_
    rintro ⟨l, v, h, -⟩
    simpa [Window.enclose] using h.stands
  | @atom t w plain _ ih =>
    have hg : groupsFrom i 0 start (t :: w) = groupsFrom (i + 1) 0 start w := by
      cases t with
      | bracket b => exact absurd plain (by simp [Token.bracket?])
      | _ => rfl
    rw [hg, ih]
    constructor
    · rintro ⟨l, v, h, rfl⟩
      refine ⟨t :: l, v, (isGroup_cons_iff plain).mpr ⟨l, rfl, h⟩, ?_⟩
      simp only [List.length_cons, Prod.mk.injEq]
      omega
    · rintro ⟨l, v, h, rfl⟩
      obtain ⟨l', rfl, h'⟩ := (isGroup_cons_iff plain).mp h
      refine ⟨l', v, h', ?_⟩
      simp only [List.length_cons, Prod.mk.injEq]
      omega
  | @group u w inside _ _ ih =>
    rw [inside.groupsFrom_group, List.mem_cons, ih]
    constructor
    · rintro (rfl | ⟨l, v, h, rfl⟩)
      · exact ⟨[], u, (isGroup_group_iff inside).mpr (.inl ⟨rfl, rfl⟩), rfl⟩
      · refine ⟨_, v, (isGroup_group_iff inside).mpr (.inr ⟨l, rfl, h⟩), ?_⟩
        simp only [List.length_cons, List.length_append, Prod.mk.injEq]
        omega
    · rintro ⟨l, v, h, rfl⟩
      rcases (isGroup_group_iff inside).mp h with ⟨rfl, rfl⟩ | ⟨l', rfl, h'⟩
      · exact .inl rfl
      · refine .inr ⟨l', v, h', ?_⟩
        simp only [List.length_cons, List.length_append, Prod.mk.injEq]
        omega

theorem Nested.mem_groups_iff {w : List Token} (hw : Nested w) {g : ℕ × ℕ} :
    g ∈ groups w ↔ ∃ l v, IsGroup w l v ∧ g = (l.length + 1, l.length + 1 + v.length) := by
  unfold groups
  simpa using hw.mem_groupsFrom_iff (i := 0)

theorem Nested.pairwise_groups {w : List Token} (hw : Nested w) (i start : ℕ) :
    (groupsFrom i 0 start w).Pairwise fun g h => g.1 < h.1 := by
  induction hw generalizing i start with
  | nil => exact .nil
  | @atom t w plain _ ih =>
    cases t with
    | bracket b => exact absurd plain (by simp [Token.bracket?])
    | _ => exact ih (i + 1) start
  | @group u w inside rest _ ih =>
    rw [inside.groupsFrom_group]
    refine .cons (fun g hg => ?_) (ih _ _)
    obtain ⟨l, v, -, rfl⟩ := rest.mem_groupsFrom_iff.mp hg
    dsimp only
    omega

end Window

open Window

/-! ## Faults inside groups -/

/-- The fault of the first group that is not read, with its position counted inside the group. -/
structure FirstFault (w l v : List Token) (f : ParseFault) : Prop where
  group : IsGroup w l v
  fault : (Expr.buildAll v).outcome = .error f
  before : ∀ l' v', IsGroup w l' v' → l'.length < l.length →
    ∃ e, (Expr.buildAll v').outcome = .ok e

theorem exists_firstFault {w l v : List Token} {f : ParseFault} (group : IsGroup w l v)
    (fault : (Expr.buildAll v).outcome = .error f) : ∃ l v f, FirstFault w l v f := by
  induction hn : l.length using Nat.strong_induction_on generalizing l v f with
  | _ n ih =>
    by_cases earlier : ∃ l' v' f', IsGroup w l' v' ∧ l'.length < l.length ∧
        (Expr.buildAll v').outcome = .error f'
    · obtain ⟨l', v', f', hg, hlt, hf⟩ := earlier
      exact ih _ (hn ▸ hlt) hg hf rfl
    · refine ⟨l, v, f, group, fault, fun l' v' hg hlt => ?_⟩
      cases ho : (Expr.buildAll v').outcome with
      | ok e => exact ⟨e, rfl⟩
      | error f' => exact absurd ⟨l', v', f', hg, hlt, ho⟩ earlier

theorem fault?_build_group {w l v : List Token} (h : IsGroup w l v) :
    (Expr.build (0 + (l.length + 1)) (slice w (l.length + 1) (l.length + 1 + v.length))).fault? =
      (Expr.buildAll v).fault?.map (ParseFault.move (l.length + 1)) := by
  have hbuild := Expr.outcome_build_add (l.length + 1) 0 v
  rw [h.slice_eq, Nat.zero_add]
  exact Traced.fault?_eq_map (f := id) (by rw [Except.map_id]; exact hbuild)

theorem FirstFault.findSome?_eq {w l v : List Token} {f : ParseFault} (hw : Nested w)
    (h : FirstFault w l v f) :
    ((groups w).findSome? fun g => (Expr.build (0 + g.1) (slice w g.1 g.2)).fault?) =
      some (f.move (l.length + 1)) := by
  have hmem := hw.mem_groups_iff.mpr ⟨l, v, h.group, rfl⟩
  obtain ⟨gs, gs', hgroups⟩ := List.append_of_mem hmem
  have hsorted := hw.pairwise_groups 0 0
  rw [← groups, hgroups, List.pairwise_append] at hsorted
  refine List.findSome?_eq_some_iff.mpr ⟨gs, _, gs', hgroups, ?_, fun g hg => ?_⟩
  · rw [fault?_build_group h.group, Traced.fault?_eq_some_iff.mpr h.fault, Option.map_some]
  · have hlt := hsorted.2.2 g hg _ List.mem_cons_self
    obtain ⟨l', v', hgroup, rfl⟩ :=
      hw.mem_groups_iff.mp (hgroups ▸ List.mem_append_left _ hg)
    have hread := h.before l' v' hgroup (by omega)
    rw [fault?_build_group hgroup, Traced.fault?_eq_none_iff.mpr hread, Option.map_none]

/-- **Without an operator outside its brackets, a window of several tokens is not read**: the fault
is that of its first group that is not read, or else that of a missing operator. -/
theorem buildAll_withoutOperator (w : List Token) (several : 2 ≤ w.length) (nested : Nested w)
    (bare : ∀ p op, ¬ Outside w p op) (unenclosed : ¬ ClosedByLast w) :
    ∃ fault, (Expr.buildAll w).outcome = .error fault ∧
      ((∃ l v f, IsGroup w l v ∧ (Expr.buildAll v).outcome = .error f) →
        ∃ l v f, FirstFault w l v f) ∧
      (∀ l v f, FirstFault w l v f →
        fault.code = f.code ∧ fault.message = f.message ∧ fault.operator? = f.operator? ∧
          fault.position? = f.position?.map (l.length + 1 + ·)) ∧
      ((∀ l v, IsGroup w l v → ∃ e, (Expr.buildAll v).outcome = .ok e) →
        fault.code = 106 ∧ fault.position? = some 0) := by
  have hu : unwrap? w = none := nested.unwrap?_eq_none unenclosed
  have hr : root? w = none := root?_eq_none_iff.mpr <|
    List.eq_nil_iff_forall_not_mem.mpr fun p hp => bare p.1 p.2 (mem_outerFrom_iff.mp hp)
  refine ⟨_, Expr.outcome_build_groups hu hr several 0, ?_, fun l v f hfirst => ?_, fun hall => ?_⟩
  · rintro ⟨l, v, f, group, fault⟩
    exact exists_firstFault group fault
  · rw [hfirst.findSome?_eq nested, Option.getD_some]
    exact ⟨f.code_move _, f.message_move _, f.operator?_move _, f.position?_move _⟩
  · have hnone : ((groups w).findSome? fun g =>
        (Expr.build (0 + g.1) (slice w g.1 g.2)).fault?) = none := by
      refine List.findSome?_eq_none_iff.mpr fun g hg => ?_
      obtain ⟨l, v, group, rfl⟩ := nested.mem_groups_iff.mp hg
      rw [fault?_build_group group, Traced.fault?_eq_none_iff.mpr (hall l v group),
        Option.map_none]
    rw [hnone]
    exact ⟨rfl, rfl⟩

/-- In `( 1 ) ( 2 + )` the second group is the first that is not read, and the fault names its
operator at position 5. In `( 1 ) ( 2 )` both groups are read. -/
theorem buildAll_withoutOperator_of_groups :
    let n (i : Int) : Token := .value (.scalar (.ofInt i))
    let w : List Token := enclose [n 1] ++ enclose [n 2, .operator .scalarPlus]
    let w' : List Token := enclose [n 1] ++ enclose [n 2]
    (∃ fault, (Expr.buildAll w).outcome = .error fault ∧ fault.code = 105 ∧
      fault.operator? = some .scalarPlus ∧ fault.position? = some 5) ∧
    ∃ fault, (Expr.buildAll w').outcome = .error fault ∧ fault.code = 106 ∧
      fault.position? = some 0 := by
  intro n w w'
  have number (i : Int) : Nested [n i] := .atom rfl .nil
  have unfinished : Nested [n 2, .operator .scalarPlus] := .atom rfl (.atom rfl .nil)
  have read (i : Int) : ∃ e, (Expr.buildAll [n i]).outcome = .ok e :=
    ⟨_, Expr.outcome_build_singleton 0 (n i)⟩
  -- the groups of two pairs of brackets in a row
  have pair {v l x : List Token} (hv : Nested v) (h : IsGroup (enclose [n 1] ++ enclose v) l x) :
      (l = [] ∧ x = [n 1]) ∨ (l = enclose [n 1] ∧ x = v) := by
    rcases (isGroup_group_iff (number 1)).mp h with ⟨rfl, rfl⟩ | ⟨l', rfl, second⟩
    · exact .inl ⟨rfl, rfl⟩
    · rcases (isGroup_group_iff hv).mp second with ⟨rfl, rfl⟩ | ⟨l'', -, third⟩
      · exact .inr ⟨rfl, rfl⟩
      · exact absurd (List.prefix_nil.mp third.stands) (by simp [enclose])
  have bare {v : List Token} (hv : outerFrom 0 0 (enclose [n 1] ++ enclose v) = []) (p : ℕ)
      (op : Operator) : ¬ Outside (enclose [n 1] ++ enclose v) p op := fun h => by
    have hmem := mem_outerFrom_iff.mpr h
    rw [hv] at hmem
    cases hmem
  have balanced {v : List Token} : balance ((enclose [n 1] ++ enclose v).take 3) = 0 := rfl
  constructor
  · obtain ⟨fault, hf, -, hfirst, -⟩ := buildAll_withoutOperator w (by decide)
      ((number 1).enclose.append unfinished.enclose) (bare rfl)
      fun h => (closedByLast_iff.mp h).1.held 3 (by decide) (by decide) balanced
    have first : FirstFault w (enclose [n 1]) [n 2, .operator .scalarPlus]
        (.missingOperands 1 (some .scalarPlus)) := by
      refine ⟨⟨(number 1).enclose, unfinished, List.prefix_rfl⟩, ?_, fun l v hg hlt => ?_⟩
      · refine (Expr.outcome_build_append_operator (l := [n 2]) rfl rfl (by decide) 0).trans ?_
        rw [Expr.outcome_build_singleton, Expr.outcome_build_nil]
        rfl
      · rcases pair unfinished hg with ⟨-, rfl⟩ | ⟨rfl, -⟩
        · exact read 1
        · exact absurd hlt (Nat.lt_irrefl _)
    obtain ⟨hcode, -, hop, hposition⟩ := hfirst _ _ _ first
    exact ⟨fault, hf, hcode, hop, hposition⟩
  · obtain ⟨fault, hf, -, -, hall⟩ := buildAll_withoutOperator w' (by decide)
      ((number 1).enclose.append (number 2).enclose) (bare rfl)
      fun h => (closedByLast_iff.mp h).1.held 3 (by decide) (by decide) balanced
    refine ⟨fault, hf, hall fun l v hg => ?_⟩
    rcases pair (number 2) hg with ⟨-, rfl⟩ | ⟨-, rfl⟩
    · exact read 1
    · exact read 2

end WorkedAlgebra
