import WorkedAlgebra.Json.Record
import WorkedAlgebra.Proofs.Json.Reading

/-!
# Records are read back

* **`Fills.of_readRecord`**: a record is read if its members fill the draft that makes it.
-/

namespace WorkedAlgebra.Json

variable {β σ : Type}

/-! ## Members as lexemes -/

theorem exists_memberLexemes_cons (member : String × Json) (members : List (String × Json)) :
    ∃ ls, memberLexemes (member :: members) = .text (some member.1) :: ls := by
  cases members <;> exact ⟨_, rfl⟩

theorem length_le_memberLexemes (members : List (String × Json)) :
    members.length ≤ (memberLexemes members).length := by
  induction members with
  | nil => exact Nat.le_refl 0
  | cons member members ih =>
    cases members with
    | nil => simp [memberLexemes]
    | cons next members =>
      simp only [memberLexemes, List.length_cons, List.length_append] at ih ⊢
      omega

/-! ## Drafts -/

theorem Reads.of_required (b : β) : Reads (required (some b)) [] b := .of_pure b

/-- A draft is filled from written members, each of which is read by the slot with its key. -/
inductive Fills (slots : List (Slot σ)) : σ → List (String × Json) → σ → Prop
  | nil (d : σ) : Fills slots d [] d
  | cons {d₀ d₁ d₂ : σ} {key : String} {value : Json} {members : List (String × Json)}
      {slot : Slot σ} (found : slots.find? (fun s => s.key == key) = some slot)
      (fresh : slot.filled d₀ = false) (fill : Reads (slot.fill d₀) value.lexemes d₁)
      (others : Fills slots d₁ members d₂) : Fills slots d₀ ((key, value) :: members) d₂

namespace Fills

variable {slots : List (Slot σ)} {d₀ d₁ d₂ : σ} {members : List (String × Json)} {key : String}
  {value : Json} {slot : Slot σ}

theorem reads_member {fuel : ℕ} {ls : List Lexeme}
    (found : slots.find? (fun s => s.key == key) = some slot) (fresh : slot.filled d₀ = false)
    (fill : Reads (slot.fill d₀) value.lexemes d₁)
    (later : Reads (do
      if ← accept .comma then readMembers slots fuel d₁
      else
        expect .closeRecord
        pure d₁) ls d₂) :
    Reads (readMembers slots (fuel + 1) d₀)
      (.text (some key) :: .colon :: (value.lexemes ++ ls)) d₂ := by
  change Reads _ ([.text (some key)] ++ ([.colon] ++ (value.lexemes ++ ls))) d₂
  refine (Reads.of_readString key).bind ((Reads.of_expect .colon).bind ?_)
  simp only [found, fresh, Bool.false_eq_true, if_false]
  exact fill.bind later

theorem reads_members (h : Fills slots d₀ members d₂) {fuel : ℕ} (hf : members.length ≤ fuel)
    (hne : members ≠ []) :
    Reads (readMembers slots fuel d₀) (memberLexemes members ++ [.closeRecord]) d₂ := by
  induction h generalizing fuel with
  | nil d => exact absurd rfl hne
  | @cons d₀ d₁ d₂ key value members slot found fresh fill others ih =>
    obtain ⟨fuel, rfl⟩ := Nat.exists_eq_add_one_of_ne_zero (Nat.ne_zero_of_lt hf)
    cases members with
    | nil =>
      cases others
      exact reads_member found fresh fill
        (.refusing (by simp) ((Reads.of_expect .closeRecord).bind (.of_pure d₁)))
    | cons member members =>
      have hothers := ih (Nat.le_of_succ_le_succ hf) (by simp)
      rw [memberLexemes, List.cons_append, List.cons_append, List.append_assoc]
      exact reads_member found fresh fill (.accepting hothers)

theorem reads_draft (h : Fills slots d₀ members d₂) :
    Reads (readDraft slots d₀) (Json.record members).lexemes d₂ := by
  change Reads _ ([.openRecord] ++ (memberLexemes members ++ [.closeRecord])) d₂
  refine (Reads.of_next .openRecord).bind ?_
  change Reads (do
    if ← accept .closeRecord then pure d₀ else readMembers slots (← get).length d₀) _ d₂
  cases members with
  | nil =>
    cases h
    exact .accepting (.of_pure d₀)
  | cons member members =>
    have hlen : (member :: members).length ≤
        (memberLexemes (member :: members) ++ [Lexeme.closeRecord]).length := by
      have := length_le_memberLexemes (member :: members)
      rw [List.length_append]
      omega
    have hmembers : Reads (do readMembers slots (← get).length d₀) _ d₂ :=
      .of_length fun n hn => h.reads_members (hlen.trans hn) (by simp)
    obtain ⟨ls, hls⟩ := exists_memberLexemes_cons member members
    rw [hls] at hmembers ⊢
    exact .refusing (by simp) hmembers

/-- **A record is read if its members fill the draft that makes it.** -/
theorem of_readRecord {slots : ℕ → List (Slot σ)} {depth : ℕ} {make : σ → Reading β} {b : β}
    (draft : σ) (h : Fills (slots depth) d₀ members draft) (hm : Reads (make draft) [] b) :
    Reads (readRecord slots d₀ make (depth + 1)) (Json.record members).lexemes b := by
  have := h.reads_draft.bind hm
  rwa [List.append_nil] at this

end Fills
end WorkedAlgebra.Json
