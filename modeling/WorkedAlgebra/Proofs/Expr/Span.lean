import WorkedAlgebra.Expr.Span
import WorkedAlgebra.Proofs.Expr.Location
import WorkedAlgebra.Proofs.Expr.Moved

/-!
# Spans are read as windows

The second pass on the positions of a token list reads the same as on a copy of the tokens there.

* **`Span.build_eq`**, **`Span.build_isLocal`**: a span is read as its window is, whatever stands
  around it.
-/

namespace WorkedAlgebra.Span

open Window

variable {tokens : List Token} {s : Span}

/-- A span of positions that the token list has. -/
structure InBounds (tokens : List Token) (s : Span) : Prop where
  ordered : s.start ≤ s.stop
  stop_le : s.stop ≤ tokens.length

theorem InBounds.start_add_length (h : InBounds tokens s) : s.start + s.length = s.stop := by
  have := h.ordered
  rw [length]
  omega

theorem inBounds_whole (tokens : List Token) : InBounds tokens (whole tokens) :=
  ⟨Nat.zero_le _, Nat.le_refl _⟩

theorem window_whole (tokens : List Token) : (whole tokens).window tokens = tokens := by
  rw [window, whole, slice, List.take_length, List.drop_zero]

/-! ## The tokens of a span -/

theorem length_window (h : InBounds tokens s) : (s.window tokens).length = s.length := by
  have := h.stop_le
  rw [window, slice, List.length_drop, List.length_take, length]
  omega

theorem window_between {a b : ℕ} (h : s.start + b ≤ s.stop) :
    window tokens ⟨s.start + a, s.start + b⟩ = slice (s.window tokens) a b := by
  rw [window, window, slice, slice, slice, List.take_drop, List.take_take, List.drop_drop,
    Nat.min_eq_left h]

theorem window_take {i : ℕ} (h : s.start + i ≤ s.stop) :
    window tokens ⟨s.start, s.start + i⟩ = (s.window tokens).take i :=
  window_between (a := 0) h

theorem window_drop (i : ℕ) :
    window tokens ⟨s.start + i, s.stop⟩ = (s.window tokens).drop i := by
  rw [window, window, slice, slice, List.drop_drop]

theorem getElem?_window {k : ℕ} (h : k < s.length) :
    (s.window tokens)[k]? = tokens[s.start + k]? := by
  have hk : s.start + k < s.stop := by
    rw [length] at h
    omega
  rw [window, slice, List.getElem?_drop, List.getElem?_take_of_lt hk]

/-! ## Brackets around a span -/

theorem unwrap?_eq_ite (w : List Token) :
    unwrap? w = if 2 ≤ w.length ∧ w[0]? = some (.bracket .opening) ∧
        w[w.length - 1]? = some (.bracket .closing) ∧
        ¬ closesWithin 1 (slice w 1 (w.length - 1)) then some (slice w 1 (w.length - 1))
      else none := by
  rcases w with _ | ⟨t, w⟩
  · rfl
  · by_cases ht : t = .bracket .opening
    · subst ht
      rcases List.eq_nil_or_concat w with rfl | ⟨v, u, rfl⟩
      · rfl
      · have hv : slice (.bracket .opening :: (v ++ [u])) 1 (v.length + 1) = v := by
          simp [slice]
        simp [unwrap?, hv]
    · have hnone : unwrap? (t :: w) = none := by
        unfold unwrap?
        split
        · next heq => exact absurd (List.cons.inj heq).1 ht
        · rfl
      rw [hnone, if_neg]
      rintro ⟨-, hopening, -⟩
      exact ht (Option.some.inj hopening)

/-- **Brackets around a span are removed exactly if they are removed from its window.** -/
theorem unwrap?_window (h : InBounds tokens s) :
    (inside tokens s = s ∧ unwrap? (s.window tokens) = none) ∨
      inside tokens s ≠ s ∧ InBounds tokens (inside tokens s) ∧
        (inside tokens s).start = s.start + 1 ∧
        unwrap? (s.window tokens) = some ((inside tokens s).window tokens) := by
  have hlen := length_window h
  by_cases hl : 2 ≤ s.length
  · have hstop := h.start_add_length
    have hlast : s.start + (s.length - 1) = s.stop - 1 := by omega
    have hslice : slice (s.window tokens) 1 (s.length - 1) =
        window tokens ⟨s.start + 1, s.stop - 1⟩ := by
      rw [← window_between (by omega), hlast]
    rw [unwrap?_eq_ite, hlen, getElem?_window (by omega), getElem?_window (by omega), hslice,
      hlast, Nat.add_zero]
    unfold inside
    split
    · next hc =>
      have hne : (⟨s.start + 1, s.stop - 1⟩ : Span) ≠ s := fun heq => by
        have := congrArg start heq
        simp only at this
        omega
      refine .inr ⟨hne, ⟨?_, Nat.le_trans (Nat.sub_le _ _) h.stop_le⟩, rfl, if_pos hc⟩
      simp only
      omega
    · next hc => exact .inl ⟨rfl, if_neg hc⟩
  · left
    rw [unwrap?_eq_ite, hlen, if_neg fun hc => hl hc.1, inside, if_neg fun hc => hl hc.1]
    exact ⟨rfl, rfl⟩

/-! ## Groups in a span -/

/-- The positions of a window, counted in the whole list. -/
def shift (n : ℕ) (g : ℕ × ℕ) : Span := ⟨n + g.1, n + g.2⟩

theorem groupsAt_range' (tokens : List Token) (base k i depth start : ℕ) (opened : Option ℕ)
    (hopened : 0 < depth → ∃ p, opened = some p ∧ p + 1 = base + start)
    (hk : base + i + k ≤ tokens.length) :
    groupsAt tokens depth opened (List.range' (base + i) k) =
      (groupsFrom i depth start (slice tokens (base + i) (base + i + k))).map (shift base) := by
  induction k generalizing i depth start opened with
  | zero =>
    have hnil : slice tokens (base + i) (base + i + 0) = [] := by
      simp [slice]
    rw [hnil]
    rfl
  | succ k ih =>
    have hi : base + i < tokens.length := by omega
    have hstop : base + i + (k + 1) = base + (i + 1) + k := by omega
    have hcons : slice tokens (base + i) (base + i + (k + 1)) =
        tokens[base + i] :: slice tokens (base + (i + 1)) (base + (i + 1) + k) := by
      rw [hstop, slice, slice, List.drop_eq_getElem_cons (by rw [List.length_take]; omega),
        List.getElem_take]
      rfl
    have htoken : tokens[base + i]? = some tokens[base + i] := List.getElem?_eq_getElem hi
    have hrest (depth start : ℕ) (opened : Option ℕ) := ih (i + 1) depth start opened
    rw [List.range'_succ, groupsAt, hcons, htoken, Nat.add_assoc base i 1]
    rcases tokens[base + i] with v | op | _ | _
    · exact hrest depth start opened hopened (by omega)
    · exact hrest depth start opened hopened (by omega)
    · refine hrest _ _ _ (fun _ => ?_) (by omega)
      split
      · exact ⟨_, rfl, by omega⟩
      · exact hopened (by omega)
    · rcases depth with _ | _ | depth
      · exact hrest 0 start opened (fun h => absurd h (Nat.lt_irrefl 0)) (by omega)
      · obtain ⟨p, rfl, hp⟩ := hopened Nat.one_pos
        change ⟨p + 1, base + i⟩ :: groupsAt tokens 0 none _ =
          ⟨base + start, base + i⟩ :: (groupsFrom (i + 1) 0 start _).map _
        rw [hp, hrest 0 start none (fun h => absurd h (Nat.lt_irrefl 0)) (by omega)]
      · exact hrest (depth + 1) start opened (fun _ => hopened (by omega)) (by omega)

/-- **The groups in a span are those in its window.** -/
theorem groups_eq (h : InBounds tokens s) :
    groups tokens s = (Window.groups (s.window tokens)).map (shift s.start) := by
  have hstop := h.start_add_length
  have hstop_le := h.stop_le
  have hloop := groupsAt_range' tokens s.start s.length 0 0 0 none
    (fun h => absurd h (Nat.lt_irrefl 0)) (by omega)
  rwa [Nat.add_zero, hstop] at hloop

theorem bounds_of_mem_groups (h : InBounds tokens s) {g : ℕ × ℕ}
    (hg : g ∈ Window.groups (s.window tokens)) : g.1 ≤ g.2 ∧ s.start + g.2 < s.stop := by
  have hlt := lt_of_mem_groupsFrom hg
  have hlen := length_window h
  have hstop := h.start_add_length
  exact ⟨le_of_mem_groupsFrom hg (by omega), by omega⟩

/-! ## One call -/

section Step

variable {ε : Type} {fault : ParseFault → ε} {f : Span → Traced ε (Option Expr)}

theorem step_of_inside_ne (h : inside tokens s ≠ s) :
    (step tokens fault s fun t _ => f t) = (do
      .emit (.unwrapped s.start (s.stop - 1))
      f (inside tokens s)) := dif_neg h

theorem step_of_length_zero (hi : inside tokens s = s) (hl : s.length = 0) :
    (step tokens fault s fun t _ => f t) = pure none := by
  rw [step, dif_pos hi, if_pos hl]

theorem step_of_length_one (hi : inside tokens s = s) (hl : s.length = 1) :
    (step tokens fault s fun t _ => f t) =
      (Traced.ofExcept (tokens[s.start]?.mapM (Expr.ofToken s.start))).mapFault fault := by
  rw [step, dif_pos hi, if_neg (by omega), if_pos hl]

theorem step_of_root? (hi : inside tokens s = s) (hl : 1 < s.length) {i : ℕ} {op : Operator}
    (hr : root? (s.window tokens) = some (i, op)) :
    (step tokens fault s fun t _ => f t) = (do
      .emit (.split s.start s.stop op (s.start + i))
      let first ← f ⟨s.start, s.start + i⟩
      let second ← f ⟨s.start + i + 1, s.stop⟩
      some <$> (Traced.ofExcept (Expr.apply op (s.start + i) first second)).mapFault fault) := by
  rw [step, dif_pos hi, if_neg (by omega), if_neg (by omega)]
  split
  · next i' op' h =>
    obtain ⟨rfl, rfl⟩ : i' = i ∧ op' = op := by simpa using h.symm.trans hr
    rfl
  · next h => exact absurd (h.symm.trans hr) (by simp)

theorem step_of_root?_none (hi : inside tokens s = s) (hl : 1 < s.length)
    (hr : root? (s.window tokens) = none) :
    (step tokens fault s fun t _ => f t) = (do
      (groups tokens s).forM fun g => discard (f g)
      .fail (fault (.adjacentOperands s.start))) := by
  rw [step, dif_pos hi, if_neg (by omega), if_neg (by omega)]
  split
  · next h => exact absurd (h.symm.trans hr) (by simp)
  · rw [attach_forM (groups tokens s) fun g => discard (f g)]

end Step

/-! ## The whole pass -/

/-- **A span is read as its window is**, and the same is reported on the way. -/
theorem build_eq (h : InBounds tokens s) :
    build tokens s = Expr.build s.start (s.window tokens) := by
  induction hn : s.length using Nat.strong_induction_on generalizing s with
  | _ n ih =>
    have hlen := length_window h
    have hstop := h.start_add_length
    rw [build]
    rcases unwrap?_window h with ⟨hi, hu⟩ | ⟨hi, hinside, hstart, hu⟩
    · obtain hl | hl | hl : s.length = 0 ∨ s.length = 1 ∨ 1 < s.length := by omega
      · rw [step_of_length_zero hi hl, Expr.build_of_length_le_one hu (by omega),
          List.eq_nil_of_length_eq_zero (hlen.trans hl)]
        rfl
      · rw [step_of_length_one hi hl, Expr.build_of_length_le_one hu (by omega),
          List.head?_eq_getElem?, getElem?_window (by omega), Nat.add_zero, Traced.mapFault_id]
      · cases hr : root? (s.window tokens) with
        | some q =>
          obtain ⟨i, op⟩ := q
          have hil : i < s.length := hlen ▸ lt_of_root? hr
          have hstop_le := h.stop_le
          have hfirst : build tokens ⟨s.start, s.start + i⟩ =
              Expr.build s.start ((s.window tokens).take i) := by
            rw [← window_take (by omega)]
            refine ih _ ?_ ⟨Nat.le_add_right _ _, ?_⟩ rfl <;> simp only [length] <;> omega
          have hsecond : build tokens ⟨s.start + i + 1, s.stop⟩ =
              Expr.build (s.start + i + 1) ((s.window tokens).drop (i + 1)) := by
            rw [← window_drop]
            refine ih _ ?_ ⟨?_, hstop_le⟩ rfl <;> simp only [length] <;> omega
          rw [step_of_root? hi hl hr, Expr.build_of_root? hu hr (by omega), hlen, hstop, hfirst,
            hsecond]
          simp only [Traced.mapFault_id]
        | none =>
          have hgroups : ((Window.groups (s.window tokens)).map (shift s.start)).forM
                (fun g => discard (build tokens g)) =
              (Window.groups (s.window tokens)).forM fun g =>
                discard (Expr.build (s.start + g.1) (slice (s.window tokens) g.1 g.2)) := by
            refine List.forM_map.trans (forM_congr fun g hg => ?_)
            obtain ⟨hle, hlt⟩ := bounds_of_mem_groups h hg
            have hstop_le := h.stop_le
            rw [← window_between (by omega)]
            congr 1
            refine ih _ ?_ ⟨?_, ?_⟩ rfl <;> simp only [shift, length] <;> omega
          rw [step_of_root?_none hi hl hr, Expr.build_of_root?_none hu hr (by omega), groups_eq h,
            hgroups]
          rfl
    · rw [step_of_inside_ne hi, ih _ (hn ▸ length_inside_lt hi) hinside rfl, hstart,
        Expr.build_of_unwrap? hu, hlen, hstop]

theorem build_eq_buildRange (h : InBounds tokens s) :
    build tokens s = Expr.buildRange tokens s.start s.stop :=
  build_eq h

theorem build_whole (tokens : List Token) : build tokens (whole tokens) = Expr.buildAll tokens := by
  rw [build_eq (inBounds_whole tokens), window_whole]
  rfl

/-! ## Spans inside a longer list -/

theorem outcome_build_stretch (p w s : List Token) :
    (build (p ++ w ++ s) ⟨p.length, p.length + w.length⟩).outcome =
      (Expr.buildAll w).outcome.mapError (ParseFault.move p.length) := by
  have hbounds : InBounds (p ++ w ++ s) ⟨p.length, p.length + w.length⟩ :=
    ⟨Nat.le_add_right _ _, by simp only [List.length_append]; omega⟩
  rw [build_eq_buildRange hbounds, Expr.buildRange, List.append_assoc, slice_append_append]
  exact Expr.outcome_build_add p.length 0 w

/-- **A stretch of a token list is read as it is read by itself**, and its fault is only further on
by the number of tokens before the stretch. -/
theorem build_isLocal (p w s : List Token) :
    let span : Span := ⟨p.length, p.length + w.length⟩
    (∀ result, (build (p ++ w ++ s) span).outcome = .ok result ↔
      (Expr.buildAll w).outcome = .ok result) ∧
    ∀ fault, (build (p ++ w ++ s) span).outcome = .error fault →
      ∃ fault' q, (Expr.buildAll w).outcome = .error fault' ∧
        fault.code = fault'.code ∧ fault.message = fault'.message ∧
        fault.operator? = fault'.operator? ∧
        fault'.position? = some q ∧ fault.position? = some (p.length + q) := by
  intro span
  rw [outcome_build_stretch p w s]
  cases hw : (Expr.buildAll w).outcome with
  | ok result =>
    refine ⟨fun result' => ?_, nofun⟩
    simp only [Except.mapError, Except.ok.injEq]
  | error fault' =>
    refine ⟨fun result => iff_of_false nofun nofun, fun fault h => ?_⟩
    obtain rfl : fault'.move p.length = fault := Except.error.inj h
    -- every fault of the second pass has a position in its window
    obtain ⟨q, hq, -, -⟩ := located_of_faults (Expr.faults_of_build hw)
    rw [Nat.zero_add] at hq
    exact ⟨fault', q, rfl, fault'.code_move _, fault'.message_move _, fault'.operator?_move _, hq,
      by rw [fault'.position?_move, hq, Option.map_some]⟩

/-- In `( 1 2 + ) )` the stretch `2 +` is read by itself: its operator lacks an operand, and stands
at position 3 of the whole list. -/
theorem build_isLocal_of_unfinished :
    let n (i : Int) : Token := .value (.scalar (.ofInt i))
    let p : List Token := [.bracket .opening, n 1]
    let w : List Token := [n 2, .operator .scalarPlus]
    let s : List Token := [.bracket .closing, .bracket .closing]
    ∃ fault, (build (p ++ w ++ s) ⟨2, 4⟩).outcome = .error fault ∧ fault.code = 105 ∧
      fault.operator? = some .scalarPlus ∧ fault.position? = some 3 := by
  intro n p w s
  have hw : (Expr.buildAll w).outcome = .error (.missingOperands 1 (some .scalarPlus)) := by
    refine (Expr.outcome_build_append_operator (l := [n 2]) rfl rfl (by decide) 0).trans ?_
    rw [Expr.outcome_build_singleton, Expr.outcome_build_nil]
    rfl
  obtain ⟨hok, herror⟩ := build_isLocal p w s
  cases hspan : (build (p ++ w ++ s) ⟨2, 4⟩).outcome with
  | ok result => exact absurd (hw.symm.trans ((hok result).mp hspan)) nofun
  | error fault =>
    obtain ⟨fault', q, hfault, hcode, -, hop, hq, hposition⟩ := herror fault hspan
    obtain rfl := Except.error.inj (hw.symm.trans hfault)
    obtain rfl := Option.some.inj hq
    exact ⟨fault, rfl, hcode, hop, hposition⟩

end WorkedAlgebra.Span
