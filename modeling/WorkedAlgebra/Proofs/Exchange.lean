import WorkedAlgebra.Exchange
import WorkedAlgebra.Proofs.Calculation
import WorkedAlgebra.Proofs.Wire.Outcome
import WorkedAlgebra.Proofs.Wire.Token

/-!
# The entry points agree

* **`Exchange.entryPoints_agree`**: every entry point gives what was calculated.
-/

namespace WorkedAlgebra.Exchange

open Json

variable {limits : Limits}

theorem outcome_listToJson (limits : Limits) (tokens : List Token) :
    outcome (Token.listToJson tokens).render limits = .ofTokens limits tokens := by
  rw [outcome, Token.readText_listToJson]

theorem answerUnder_listToJson {options : String} (h : readText Limits.read options = .ok limits)
    (tokens : List Token) :
    answerUnder (Token.listToJson tokens).render options =
      (Outcome.ofTokens limits tokens).toJson.render := by
  rw [answerUnder, h]
  simp only [outcome_listToJson]

/-- **The entry points agree**: a list beyond the limit is refused by each with error 109, any other
has the outcome that packages its calculation, also from its text. -/
theorem entryPoints_agree (limits : Limits) (tokens : List Token) :
    (∀ limit, limits.maxTokens = some limit → limit.toNat < tokens.length →
      ∃ fault, calculate limits tokens = .error fault ∧
        Outcome.ofTokens limits tokens = .ofReport fault.report ∧
        (⟨tokens, limits⟩ : Request).outcome = .ofReport fault.report ∧
        fault.report.code = 109 ∧ fault.report.position = some limit) ∧
    (limits.Admits tokens →
      calculate limits tokens = calculate .unlimited tokens ∧
        Outcome.ofTokens limits tokens = Outcome.ofTokens .unlimited tokens ∧
        (⟨tokens, limits⟩ : Request).outcome = (⟨tokens, .unlimited⟩ : Request).outcome) ∧
    ((Outcome.ofTokens limits tokens).success = true ↔ ∃ t, calculate limits tokens = .ok t) ∧
    Outcome.Packages tokens (calculate limits tokens) (.ofTokens limits tokens) ∧
    (calculate limits tokens = .ok .leaf ↔
      limits.Admits tokens ∧ ∃ n v, tokens = Token.enclosed n v) ∧
    (⟨tokens, limits⟩ : Request).outcome = .ofTokens limits tokens ∧
    outcome (Token.listToJson tokens).render limits = .ofTokens limits tokens ∧
    answer (Token.listToJson tokens).render =
      (Outcome.ofTokens .unlimited tokens).toJson.render ∧
    readText Limits.read limits.toJson.render = .ok limits ∧
    ∀ options, readText Limits.read options = .ok limits →
      answerUnder (Token.listToJson tokens).render options =
        (Outcome.ofTokens limits tokens).toJson.render := by
  have hpackages := Outcome.packages_ofTokens limits tokens
  refine ⟨fun limit hlimit hlong => ?_, fun h => ?_, hpackages.success_iff, hpackages,
    calculate_eq_leaf_iff, rfl, outcome_listToJson limits tokens, ?_, limits.readText_toJson,
    fun options h => answerUnder_listToJson h tokens⟩
  · obtain ⟨fault, hc, ho, hcode, hposition⟩ := calculate_of_exceeds hlimit hlong
    exact ⟨fault, hc, ho, ho, hcode, hposition⟩
  · have ho := Outcome.ofTokens_of_admits h
    exact ⟨calculate_of_admits h, ho, ho⟩
  · rw [answer, outcome_listToJson]

end WorkedAlgebra.Exchange
