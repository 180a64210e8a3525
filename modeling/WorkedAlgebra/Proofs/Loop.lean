import Mathlib.Data.List.FinRange
import Mathlib.Data.List.Forall2
import WorkedAlgebra.Traced

/-!
# Loops whose steps may fail

* **`mapM_eq_error_iff`**: a loop collects the results of its steps, or ends with the first fault
  among them.
-/

namespace WorkedAlgebra

variable {α β : Type} {ε : Type}

theorem bind_ok (a : α) (f : α → Except ε β) : (Except.ok a >>= f) = f a := rfl

theorem mapM_eq_ok {f : α → Except ε β} {g : α → β} (h : ∀ a, f a = .ok (g a)) (l : List α) :
    l.mapM f = .ok (l.map g) := by
  have hf : f = fun a => pure (g a) := funext h
  rw [hf, List.mapM_pure]
  rfl

theorem mapM_map_eq_ok {f : β → Except ε α} {g : α → β} (h : ∀ a, f (g a) = .ok a) (l : List α) :
    (l.map g).mapM f = .ok l := by
  rw [List.mapM_map]
  exact (mapM_eq_ok (g := id) h l).trans (congrArg _ l.map_id)

theorem mapM_range {n : ℕ} {f : ℕ → Except ε β} {g : Fin n → β} (h : ∀ i : Fin n, f i = .ok (g i)) :
    (List.range n).mapM f = .ok ((List.finRange n).map g) := by
  rw [← List.map_coe_finRange_eq_range, List.mapM_map]
  exact mapM_eq_ok h _

theorem foldlM_eq_ok {f : β → α → Except ε β} {g : β → α → β} (h : ∀ b a, f b a = .ok (g b a))
    (b : β) (l : List α) : l.foldlM f b = .ok (l.foldl g b) := by
  have hf : f = fun b a => pure (g b a) := funext fun b => funext (h b)
  rw [hf, List.foldlM_pure]
  rfl

theorem foldlM_range {n : ℕ} {f : β → ℕ → Except ε β} {g : β → Fin n → β}
    (h : ∀ b (i : Fin n), f b i = .ok (g b i)) (b : β) :
    (List.range n).foldlM f b = .ok ((List.finRange n).foldl g b) := by
  rw [← List.map_coe_finRange_eq_range, List.foldlM_map]
  exact foldlM_eq_ok h b _

theorem mapM_eq_ok_iff {f : α → Except ε β} {l : List α} {bs : List β} :
    l.mapM f = .ok bs ↔ List.Forall₂ (fun a b => f a = .ok b) l bs := by
  induction l generalizing bs with
  | nil => cases bs <;> simp [pure, Except.pure]
  | cons a l ih =>
    simp only [List.mapM_cons, Traced.bind_eq_ok_iff, ih, pure, Except.pure, Except.ok.injEq,
      List.forall₂_cons_left_iff]
    constructor
    · rintro ⟨b, ha, bs, hl, rfl⟩
      exact ⟨b, bs, ha, hl, rfl⟩
    · rintro ⟨b, bs, ha, hl, rfl⟩
      exact ⟨b, ha, bs, hl, rfl⟩

/-- **A loop fails at the first item that does.** -/
theorem mapM_eq_error_iff {f : α → Except ε β} {l : List α} {e : ε} :
    l.mapM f = .error e ↔ ∃ before a after, l = before ++ a :: after ∧
      (∀ b ∈ before, ∃ c, f b = .ok c) ∧ f a = .error e := by
  induction l with
  | nil => simp [pure, Except.pure]
  | cons x l ih =>
    simp only [List.mapM_cons, Traced.bind_eq_error_iff, ih, pure, Except.pure, reduceCtorEq,
      and_false, exists_false, or_false]
    constructor
    · rintro (hx | ⟨c, hx, before, a, after, rfl, hb, ha⟩)
      · exact ⟨[], x, l, rfl, by simp, hx⟩
      · exact ⟨x :: before, a, after, rfl, List.forall_mem_cons.mpr ⟨⟨c, hx⟩, hb⟩, ha⟩
    · rintro ⟨before, a, after, hl, hb, ha⟩
      cases before with
      | nil =>
        obtain ⟨rfl, rfl⟩ := List.cons.inj hl
        exact .inl ha
      | cons y before =>
        obtain ⟨rfl, rfl⟩ := List.cons.inj hl
        obtain ⟨⟨c, hx⟩, hb⟩ := List.forall_mem_cons.mp hb
        exact .inr ⟨c, hx, before, a, after, rfl, hb, ha⟩

theorem mapM_mapM_eq_error_iff {f : α → Except ε β} {ls : List (List α)} {e : ε} :
    ls.mapM (fun l => l.mapM f) = .error e ↔ ls.flatten.mapM f = .error e := by
  induction ls with
  | nil => simp [pure, Except.pure]
  | cons l ls ih =>
    simp [List.mapM_append, Traced.bind_eq_error_iff, ih, pure, Except.pure]

end WorkedAlgebra
