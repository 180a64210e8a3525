import WorkedAlgebra.Expr.Parse
import WorkedAlgebra.Proofs.Expr.Root

/-!
# The second pass over a window

What the second pass does, case by case, and what it reads without what it reports on the way.

* **`window_induction`**, **`outcome_build_eq_none_iff`**: induction on the windows that the second
  pass meets, and those of which nothing is read.
-/

namespace WorkedAlgebra

theorem attach_forM {m : Type → Type} [Monad m] [LawfulMonad m] {α : Type} (l : List α)
    (f : α → m PUnit) : (l.attach.forM fun x => f x.1) = l.forM f := by
  have h := List.forM_map (l := l.attach) (g := Subtype.val) (f := f)
  rw [List.attach_map_subtype_val] at h
  exact h.symm

theorem forM_congr {m : Type → Type} [Monad m] [LawfulMonad m] {α : Type} {l : List α}
    {f g : α → m PUnit} (H : ∀ a ∈ l, f a = g a) : l.forM f = l.forM g := by
  rw [← attach_forM l f, ← attach_forM l g]
  congr 1
  funext ⟨a, ha⟩
  exact H a ha

theorem findSome?_eq_map {α β γ : Type} {l : List α} {f : α → Option β} {g : α → Option γ}
    {h : β → γ} (H : ∀ a ∈ l, g a = (f a).map h) : l.findSome? g = (l.findSome? f).map h := by
  induction l with
  | nil => rfl
  | cons a l ih =>
    rw [List.findSome?_cons, List.findSome?_cons, H a List.mem_cons_self,
      ih fun b hb => H b (List.mem_cons_of_mem a hb)]
    cases f a <;> rfl

namespace Traced

variable {ε ε' α β : Type}

/-- The fault of a computation that fails. -/
def fault? (x : Traced ε α) : Option ε :=
  match x.outcome with
  | .error e => some e
  | .ok _ => none

theorem fault?_eq_some_iff {x : Traced ε α} {e : ε} : x.fault? = some e ↔ x.outcome = .error e := by
  rw [fault?]
  cases x.outcome <;> simp

theorem fault?_eq_none_iff {x : Traced ε α} : x.fault? = none ↔ ∃ a, x.outcome = .ok a := by
  rw [fault?]
  cases x.outcome <;> simp

theorem fault?_eq_map {f : α → β} {g : ε → ε'} {x : Traced ε α} {y : Traced ε' β}
    (h : y.outcome = (x.outcome.map f).mapError g) : y.fault? = x.fault?.map g := by
  rw [fault?, h, fault?]
  cases x.outcome <;> rfl

theorem outcome_forM_discard {ι : Type} (l : List ι) (f : ι → Traced ε α) :
    (l.forM fun i => discard (f i)).outcome =
      match l.findSome? fun i => (f i).fault? with
      | some e => .error e
      | none => .ok () := by
  induction l with
  | nil => rfl
  | cons i l ih =>
    have hcons : ((i :: l).forM fun i => discard (f i)).outcome =
        (f i).outcome >>= fun _ => (l.forM fun i => discard (f i)).outcome := by
      rw [List.forM, outcome_bind]
      obtain ⟨es, _ | a⟩ := f i <;> rfl
    rw [hcons, ih, List.findSome?_cons, fault?]
    cases (f i).outcome <;> rfl

end Traced

namespace Window

theorem exists_eq_append_of_root? {w : List Token} {i : Nat} {op : Operator}
    (h : root? w = some (i, op)) :
    ∃ l r, w = l ++ .operator op :: r ∧ l.length = i := by
  obtain ⟨hi, hop⟩ := List.getElem?_eq_some_iff.mp (getElem?_of_root? h)
  refine ⟨w.take i, w.drop (i + 1), ?_, ?_⟩
  · rw [← hop, ← List.drop_eq_getElem_cons hi, List.take_append_drop]
  · rw [List.length_take, Nat.min_eq_left (Nat.le_of_lt hi)]

theorem unwrap?_singleton (t : Token) : unwrap? [t] = none := by
  cases t with
  | value v => rfl
  | operator op => rfl
  | bracket b => cases b <;> rfl

end Window

namespace Expr

open Window

/-- **Windows by the steps of the second pass**: the inside of enclosing brackets, the two sides of
the operator applied last, or the groups. -/
@[elab_as_elim]
theorem window_induction {motive : Nat → List Token → Prop}
    (enclosed : ∀ start inner, unwrap? (enclose inner) = some inner → motive (start + 1) inner →
      motive start (enclose inner))
    (nil : ∀ start, motive start [])
    (singleton : ∀ start t, motive start [t])
    (split : ∀ start l op r, unwrap? (l ++ .operator op :: r) = none →
      root? (l ++ .operator op :: r) = some (l.length, op) →
      1 < (l ++ .operator op :: r).length → motive start l →
      motive (start + l.length + 1) r → motive start (l ++ .operator op :: r))
    (groups : ∀ start w, unwrap? w = none → root? w = none → 1 < w.length →
      (∀ g ∈ groups w, motive (start + g.1) (slice w g.1 g.2)) → motive start w)
    (start : Nat) (w : List Token) : motive start w := by
  induction start, w using build.induct with
  | case1 start w inner hu ih =>
    obtain rfl := eq_enclose_of_unwrap? hu
    exact enclosed start inner hu ih
  | case2 start w hu hl =>
    rcases w with _ | ⟨t, _ | ⟨u, w⟩⟩
    · exact nil start
    · exact singleton start t
    · simp at hl
  | case3 start w hu hl i op hr ih₁ ih₂ =>
    obtain ⟨l, r, rfl, rfl⟩ := exists_eq_append_of_root? hr
    rw [List.take_left] at ih₁
    rw [List.append_cons, List.drop_left' (by simp)] at ih₂
    exact split start l op r hu hr (by omega) ih₁ ih₂
  | case4 start w hu hl hr ih => exact groups start w hu hr (by omega) ih

/-! ## The cases of the second pass -/

theorem build_of_unwrap? {w inner : List Token} (h : unwrap? w = some inner) (start : Nat) :
    build start w = (do
      .emit (.unwrapped start (start + w.length - 1))
      build (start + 1) inner) := by
  rw [build]
  split
  · next inner' h' =>
    obtain rfl := Option.some.inj (h'.symm.trans h)
    rfl
  · next h' => exact absurd (h'.symm.trans h) (by simp)

theorem build_of_length_le_one {w : List Token} (h : unwrap? w = none) (hl : w.length ≤ 1)
    (start : Nat) : build start w = .ofExcept (w.head?.mapM (ofToken start)) := by
  rw [build]
  split
  · next inner h' => exact absurd (h'.symm.trans h) (by simp)
  · rw [if_pos hl]

theorem build_of_root? {w : List Token} {i : Nat} {op : Operator} (hu : unwrap? w = none)
    (hr : root? w = some (i, op)) (hl : 1 < w.length) (start : Nat) :
    build start w = (do
      .emit (.split start (start + w.length) op (start + i))
      let first ← build start (w.take i)
      let second ← build (start + i + 1) (w.drop (i + 1))
      some <$> .ofExcept (apply op (start + i) first second)) := by
  rw [build]
  split
  · next inner h' => exact absurd (h'.symm.trans hu) (by simp)
  · rw [if_neg (by omega)]
    split
    · next i' op' h' =>
      obtain ⟨rfl, rfl⟩ : i' = i ∧ op' = op := by simpa using h'.symm.trans hr
      rfl
    · next h' => exact absurd (h'.symm.trans hr) (by simp)

theorem build_of_root?_none {w : List Token} (hu : unwrap? w = none) (hr : root? w = none)
    (hl : 1 < w.length) (start : Nat) :
    build start w = (do
      (groups w).forM fun g => discard (build (start + g.1) (slice w g.1 g.2))
      .fail (.adjacentOperands start)) := by
  rw [build]
  split
  · next inner h' => exact absurd (h'.symm.trans hu) (by simp)
  · rw [if_neg (by omega)]
    split
    · next i' op' h' => exact absurd (h'.symm.trans hr) (by simp)
    · rw [← attach_forM (groups w)]

theorem outcome_build_of_unwrap? {w inner : List Token} (h : unwrap? w = some inner)
    (start : Nat) : (build start w).outcome = (build (start + 1) inner).outcome := by
  rw [build_of_unwrap? h, Traced.outcome_bind_of_ok (Traced.outcome_emit _)]

theorem outcome_build_of_length_le_one {w : List Token} (h : unwrap? w = none)
    (hl : w.length ≤ 1) (start : Nat) :
    (build start w).outcome = w.head?.mapM (ofToken start) := by
  rw [build_of_length_le_one h hl, Traced.outcome_ofExcept]

theorem outcome_build_nil (start : Nat) : (build start []).outcome = .ok none :=
  outcome_build_of_length_le_one rfl (by simp) start

theorem outcome_build_singleton (start : Nat) (t : Token) :
    (build start [t]).outcome = some <$> ofToken start t := by
  rw [outcome_build_of_length_le_one (unwrap?_singleton t) (by simp)]
  rfl

theorem outcome_build_append_operator {l r : List Token} {op : Operator}
    (hu : unwrap? (l ++ .operator op :: r) = none)
    (hr : root? (l ++ .operator op :: r) = some (l.length, op))
    (hl : 1 < (l ++ .operator op :: r).length) (start : Nat) :
    (build start (l ++ .operator op :: r)).outcome = (do
      let first ← (build start l).outcome
      let second ← (build (start + l.length + 1) r).outcome
      some <$> apply op (start + l.length) first second) := by
  rw [build_of_root? hu hr hl, Traced.outcome_bind_of_ok (Traced.outcome_emit _), List.take_left,
    List.append_cons, List.drop_left' (by simp)]
  simp only [Traced.outcome_bind, Traced.outcome_map, Traced.outcome_ofExcept]

/-- **What is read from a window that is split** is the operator applied to what is read on its two
sides. -/
theorem outcome_build_split_eq_ok_iff {l r : List Token} {op : Operator} {start : Nat}
    {result : Option Expr} (hu : unwrap? (l ++ .operator op :: r) = none)
    (hr : root? (l ++ .operator op :: r) = some (l.length, op))
    (hl : 1 < (l ++ .operator op :: r).length) :
    (build start (l ++ .operator op :: r)).outcome = .ok result ↔
      ∃ first second e, (build start l).outcome = .ok first ∧
        (build (start + l.length + 1) r).outcome = .ok second ∧
        apply op (start + l.length) first second = .ok e ∧ result = some e := by
  rw [outcome_build_append_operator hu hr hl]
  simp only [Traced.bind_eq_ok_iff, Traced.map_eq_ok_iff]
  constructor
  · rintro ⟨first, hf, second, hs, e, he, rfl⟩
    exact ⟨first, second, e, hf, hs, he, rfl⟩
  · rintro ⟨first, second, e, hf, hs, he, rfl⟩
    exact ⟨first, hf, second, hs, e, he, rfl⟩

/-- **A window of several tokens without an operator outside its brackets is never read.** The first
fault inside one of its groups is reported, and without such a fault its own. -/
theorem outcome_build_groups {w : List Token} (hu : unwrap? w = none) (hr : root? w = none)
    (hl : 1 < w.length) (start : Nat) :
    (build start w).outcome = .error (((groups w).findSome? fun g =>
      (build (start + g.1) (slice w g.1 g.2)).fault?).getD (.adjacentOperands start)) := by
  rw [build_of_root?_none hu hr hl, Traced.outcome_bind, Traced.outcome_forM_discard]
  cases (groups w).findSome? _ <;> rfl

theorem ofToken_eq_ok_iff {position : Nat} {t : Token} {e : Expr} :
    ofToken position t = .ok e ↔ ∃ v, t = .value v ∧ e = .value v := by
  cases t with
  | value v => simp [ofToken, eq_comm]
  | operator op => simp [ofToken]
  | bracket b => simp [ofToken]

/-- **An operator with one operand has nothing on its left and its operand on its right; any other
has an operand on each side.** -/
theorem apply_eq_ok_iff {op : Operator} {position : Nat} {first second : Option Expr} {e : Expr} :
    apply op position first second = .ok e ↔
      (∃ b, first = none ∧ second = some b ∧ op.strength = 4 ∧ .unary op b = e) ∨
        ∃ a b, first = some a ∧ second = some b ∧ op.strength < 4 ∧ .binary op a b = e := by
  have hlt : op.strength < 4 ↔ op.isUnary = false := by
    rw [← Bool.not_eq_true, op.isUnary_iff]
    have := op.strength_le
    omega
  rw [hlt, ← op.isUnary_iff]
  rcases first with _ | a <;> rcases second with _ | b <;> cases hu : op.isUnary <;>
    simp [apply, hu]

/-! ## Windows of which nothing is read -/

theorem replicate_of_build_none {start : Nat} {w : List Token}
    (h : (build start w).outcome = .ok none) :
    ∃ n, w = List.replicate n (.bracket .opening) ++ List.replicate n (.bracket .closing) := by
  induction start, w using window_induction with
  | enclosed start inner hu ih =>
    rw [outcome_build_of_unwrap? hu] at h
    obtain ⟨n, rfl⟩ := ih h
    exact ⟨n + 1, enclose_replicate n⟩
  | nil => exact ⟨0, rfl⟩
  | singleton start t =>
    rw [outcome_build_singleton] at h
    obtain ⟨e, _, he⟩ := Traced.map_eq_ok_iff.mp h
    cases he
  | split start l op r hu hr hl _ _ =>
    obtain ⟨_, _, _, _, _, _, he⟩ := (outcome_build_split_eq_ok_iff hu hr hl).mp h
    cases he
  | groups start w hu hr hl _ =>
    rw [outcome_build_groups hu hr hl] at h
    cases h

theorem outcome_build_replicate (start n : Nat) :
    (build start (List.replicate n (.bracket .opening) ++
      List.replicate n (.bracket .closing))).outcome = .ok none := by
  induction n generalizing start with
  | zero => exact outcome_build_nil start
  | succ n ih =>
    rw [← enclose_replicate, outcome_build_of_unwrap? (nested_replicate n).unwrap?_enclose, ih]

/-- **Nothing is read exactly from a pile of empty brackets.** -/
theorem outcome_build_eq_none_iff {start : Nat} {w : List Token} :
    (build start w).outcome = .ok none ↔
      ∃ n, w = List.replicate n (.bracket .opening) ++ List.replicate n (.bracket .closing) := by
  constructor
  · exact replicate_of_build_none
  · rintro ⟨n, rfl⟩
    exact outcome_build_replicate start n

end Expr
end WorkedAlgebra
