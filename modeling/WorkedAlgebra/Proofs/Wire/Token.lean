import WorkedAlgebra.Proofs.Wire.Value
import WorkedAlgebra.Wire.Token

/-!
# Tokens are read back

* **`Token.readText_listToJson`**, **`Token.listToJson_isFaithful`**: a list of tokens is read back
  from its text, which determines it.
-/

namespace WorkedAlgebra

open Json

theorem Operator.follows (op : Operator) (depth : ℕ) : Follows depth (read depth) op.toJson op :=
  .of_reads (.of_readTagged_plain op.ofKey?_key depth) rfl

theorem Bracket.follows (b : Bracket) (depth : ℕ) : Follows depth (read depth) b.toJson b := by
  have h : ofKey? b.key = some b := by cases b <;> rfl
  exact .of_reads (.of_readTagged_plain h depth) rfl

namespace Token

theorem follows (t : Token) : ∀ depth, Follows depth (read depth) t.toJson t := by
  cases t with
  | value v => exact Follows.of_readTagged rfl rfl fun depth => (v.follows depth).map value
  | operator op => exact Follows.of_readTagged rfl rfl fun depth => (op.follows depth).map operator
  | bracket b => exact Follows.of_readTagged rfl rfl fun depth => (b.follows depth).map bracket

theorem depth_toJson_le (t : Token) : t.toJson.depth ≤ 5 := by
  cases t with
  | value v => exact depth_record_le_iff.mpr (by simpa using v.depth_toJson_le)
  | operator op => exact depth_record_le_iff.mpr (by simp [Operator.toJson, Json.depth])
  | bracket b => exact depth_record_le_iff.mpr (by simp [Bracket.toJson, Json.depth])

/-- **The text of a list of tokens is read back**, however many there are. -/
theorem readText_listToJson (tokens : List Token) :
    readText readList (listToJson tokens).render = .ok tokens := by
  have hd : (listToJson tokens).depth ≤ 6 := depth_ofList_le_iff.mpr fun t _ => t.depth_toJson_le
  have h : Follows nestingLimit (readList nestingLimit) (listToJson tokens) tokens :=
    .of_readList (fun depth t _ => t.follows depth) nestingLimit
  rw [h.readText_render, if_pos (hd.trans (by decide))]

theorem render_listToJson_injective {first second : List Token}
    (h : (listToJson first).render = (listToJson second).render) : first = second := by
  have hread := readText_listToJson first
  rw [h, readText_listToJson] at hread
  exact (Except.ok.inj hread).symm

def rewrite (text : String) : Except ReadFault String :=
  (readText readList text).map fun tokens => (listToJson tokens).render

theorem rewrite_of_readText {text : String} {tokens : List Token}
    (h : readText readList text = .ok tokens) : rewrite text = .ok (listToJson tokens).render := by
  rw [rewrite, h]
  rfl

theorem rewrite_listToJson (tokens : List Token) :
    rewrite (listToJson tokens).render = .ok (listToJson tokens).render :=
  rewrite_of_readText (readText_listToJson tokens)

/-- **Writing tokens as JSON is faithful**: the text of a list determines it, and a text that is
read is rewritten to one that denotes the same tokens. -/
theorem listToJson_isFaithful :
    (∀ tokens, readText readList (listToJson tokens).render = .ok tokens) ∧
      (∀ first second, (listToJson first).render = (listToJson second).render → first = second) ∧
      ∀ text tokens, readText readList text = .ok tokens →
        ∃ written, rewrite text = .ok written ∧ readText readList written = .ok tokens ∧
          rewrite written = .ok written :=
  ⟨readText_listToJson, fun _ _ h => render_listToJson_injective h, fun _ tokens h =>
    ⟨_, rewrite_of_readText h, readText_listToJson tokens, rewrite_listToJson tokens⟩⟩

end Token

end WorkedAlgebra
