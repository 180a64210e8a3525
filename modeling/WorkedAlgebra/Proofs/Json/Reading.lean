import WorkedAlgebra.Json.Reader
import WorkedAlgebra.Proofs.Json.Lexing

/-!
# Readers read back

What a reader takes from the lexemes of a value, whatever follows them. Readers of composite forms
read what their parts read.
-/

namespace WorkedAlgebra.Json

variable {α β : Type}

/-! ## Values as lexemes -/

theorem exists_lexemes_cons (j : Json) :
    ∃ l ls, j.lexemes = l :: ls ∧ l ≠ .closeList ∧ (l = .null → j = .null) := by
  cases j with
  | null => exact ⟨_, _, rfl, nofun, fun _ => rfl⟩
  | _ => exact ⟨_, _, rfl, nofun, nofun⟩

/-- The items of a list after its first one, each with the comma before it. -/
def laterItems (js : List Json) : List Lexeme :=
  js.flatMap fun j => .comma :: j.lexemes

theorem laterItems_cons (j : Json) (js : List Json) :
    laterItems (j :: js) = .comma :: (j.lexemes ++ laterItems js) := List.flatMap_cons

theorem itemLexemes_cons (j : Json) (js : List Json) :
    itemLexemes (j :: js) = j.lexemes ++ laterItems js := by
  induction js generalizing j with
  | nil => rw [itemLexemes, laterItems, List.flatMap_nil, List.append_nil]
  | cons k js ih => rw [itemLexemes, ih, laterItems_cons]

theorem length_le_laterItems (js : List Json) : js.length ≤ (laterItems js).length := by
  induction js with
  | nil => exact Nat.le_refl 0
  | cons j js ih =>
    rw [laterItems_cons, List.length_cons, List.length_cons, List.length_append]
    omega

/-! ## Readers -/

/-- A reader **reads** a value from lexemes: it takes exactly these, whatever follows them. -/
def Reads (read : Reading α) (ls : List Lexeme) (a : α) : Prop :=
  ∀ rest, read.run (ls ++ rest) = .ok (a, rest)

theorem run_accept_of_ne {x y : Reading α} {l m : Lexeme} (hne : m ≠ l) (ls : List Lexeme) :
    (do if ← accept l then x else y).run (m :: ls) = y.run (m :: ls) := by
  have ha : (accept l).run (m :: ls) = .ok (false, m :: ls) := by
    change StateT.run (if m = l then _ else _) _ = _
    rw [if_neg hne]
    rfl
  rw [StateT.run_bind, ha]
  rfl

namespace Reads

variable {x y : Reading α} {f : α → Reading β} {ls ms : List Lexeme} {a : α} {b : β} {l m : Lexeme}

theorem of_pure (a : α) : Reads (pure a) [] a := fun _ => rfl

theorem bind (hx : Reads x ls a) (hf : Reads (f a) ms b) : Reads (x >>= f) (ls ++ ms) b := by
  intro rest
  rw [StateT.run_bind, List.append_assoc, hx]
  exact hf rest

theorem map (g : α → β) (hx : Reads x ls a) : Reads (g <$> x) ls (g a) := by
  intro rest
  rw [StateT.run_map, hx]
  rfl

theorem of_next (l : Lexeme) : Reads next [l] l := fun _ => rfl

theorem of_expect (l : Lexeme) : Reads (expect l) [l] () :=
  (of_next l).bind (f := fun m => if m = l then pure () else malformed)
    (by rw [if_pos rfl]; exact of_pure ())

theorem of_accept (l : Lexeme) : Reads (accept l) [l] true := fun rest => by
  change StateT.run (if l = l then _ else _) _ = _
  rw [if_pos rfl]
  rfl

theorem accepting (h : Reads x ls a) : Reads (do if ← accept l then x else y) (l :: ls) a :=
  (of_accept l).bind (f := fun b => if b = true then x else y) h

theorem refusing (hne : m ≠ l) (h : Reads y (m :: ls) a) :
    Reads (do if ← accept l then x else y) (m :: ls) a := by
  intro rest
  rw [List.cons_append, run_accept_of_ne hne]
  exact h rest

theorem cons {y : Reading (List α)} {as : List α} (hx : Reads x ls a) (hy : Reads y ms as) :
    Reads (do
      let a ← x
      let others ← y
      pure (a :: others)) (ls ++ ms) (a :: as) :=
  hx.bind (f := fun a => do
    let others ← y
    pure (a :: others)) (hy.map (a :: ·))

theorem of_length {f : ℕ → Reading α} (h : ∀ n, ls.length ≤ n → Reads (f n) ls a) :
    Reads (do f (← get).length) ls a := by
  intro rest
  exact h (ls ++ rest).length (by simp) rest

theorem of_readResult {r : Except ValueFault α} (h : r = .ok a) : Reads (readResult r) [] a := by
  rw [h]
  exact of_pure a

/-! ## Simple values -/

theorem of_readString (s : String) : Reads readString (Json.text s).lexemes s := fun _ => rfl

theorem of_readNat {n bound : ℕ} (h : n < bound) :
    Reads (readNat bound) (Json.number n).lexemes n := by
  intro rest
  change (if n < bound then pure n else malformed : Reading ℕ).run rest = _
  rw [if_pos h]
  rfl

theorem of_readOption {j : Json} (hj : j ≠ .null) (h : Reads x j.lexemes a) :
    Reads (readOption x) j.lexemes (some a) := by
  obtain ⟨l, ls, hl, -, hnull⟩ := exists_lexemes_cons j
  rw [hl] at h ⊢
  exact refusing (fun h => hj (hnull h)) (h.map some)

/-! ## Lists -/

section Lists

variable {write : α → Json} {item : Reading α} {as : List α}

theorem of_readItems (h : ∀ a ∈ as, Reads item (write a).lexemes a) {fuel : ℕ}
    (hf : as.length < fuel) :
    Reads (readItems item fuel) (laterItems (as.map write) ++ [.closeList]) as := by
  induction as generalizing fuel with
  | nil =>
    obtain ⟨fuel, rfl⟩ := Nat.exists_eq_add_one_of_ne_zero (Nat.ne_zero_of_lt hf)
    exact refusing (by simp) ((of_expect .closeList).bind (of_pure []))
  | cons a as ih =>
    obtain ⟨fuel, rfl⟩ := Nat.exists_eq_add_one_of_ne_zero (Nat.ne_zero_of_lt hf)
    have hothers := ih (fun b hb => h b (List.mem_cons_of_mem _ hb)) (Nat.lt_of_succ_lt_succ hf)
    rw [List.map_cons, laterItems_cons, List.cons_append, List.append_assoc]
    exact accepting ((h a List.mem_cons_self).cons hothers)

/-- **A list is read if its items are.** -/
theorem of_readList {read : Reader α} {depth : ℕ}
    (h : ∀ a ∈ as, Reads (read depth) (write a).lexemes a) :
    Reads (readList read (depth + 1)) (Json.ofList write as).lexemes as := by
  change Reads _ ([.openList] ++ (itemLexemes (as.map write) ++ [.closeList])) as
  refine (of_expect .openList).bind ?_
  cases as with
  | nil => exact accepting (of_pure [])
  | cons a as =>
    obtain ⟨l, ls, hl, hne, -⟩ := exists_lexemes_cons (write a)
    have hlen : as.length < (laterItems (as.map write) ++ [Lexeme.closeList]).length := by
      have := length_le_laterItems (as.map write)
      rw [List.length_map] at this
      rw [List.length_append, List.length_singleton]
      omega
    have hothers : Reads (do readItems (read depth) (← get).length) _ as :=
      of_length fun n hn =>
        of_readItems (fun b hb => h b (List.mem_cons_of_mem _ hb)) (hlen.trans_le hn)
    have hitems := (h a List.mem_cons_self).cons hothers
    -- the first item does not start with the closing bracket
    rw [List.map_cons, itemLexemes_cons, List.append_assoc]
    rw [hl] at hitems ⊢
    exact refusing hne hitems

end Lists

/-! ## Alternatives -/

section Tagged

variable {plain : String → Option α} {content : String → Option (Reader α)} {key : String}

theorem of_readTagged_plain (h : plain key = some a) (depth : ℕ) :
    Reads (readTagged plain content depth) (Json.text key).lexemes a := by
  change Reads _ ([.text (some key)] ++ []) a
  refine (of_next (.text (some key))).bind ?_
  simp only [h]
  exact of_pure a

theorem of_readTagged_content {read : Reader α} {j : Json} {depth : ℕ} (hp : plain key = none)
    (hc : content key = some read) (h : Reads (read depth) j.lexemes a) :
    Reads (readTagged plain content (depth + 1)) (Json.record [(key, j)]).lexemes a := by
  change Reads _ ([.openRecord] ++ ([.text (some key)] ++ ([.colon] ++
    (j.lexemes ++ [.closeRecord])))) a
  refine (of_next .openRecord).bind ((of_readString key).bind ((of_expect .colon).bind ?_))
  simp only [hp, hc]
  exact h.bind ((of_expect .closeRecord).bind (of_pure a))

end Tagged

end Reads

/-! ## Whole texts -/

/-- **What is read from the lexemes of a value is read from its text.** -/
theorem readText_render {read : Reader α} {j : Json} {a : α}
    (h : Reads (read nestingLimit) j.lexemes a) : readText read j.render = .ok a := by
  have hrun := h []
  rw [List.append_nil] at hrun
  rw [readText, lex_render, readAll, hrun]

end WorkedAlgebra.Json
