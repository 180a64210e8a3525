import WorkedAlgebra.Proofs.Expr.Parts
import WorkedAlgebra.Proofs.Expr.Reading

/-!
# Where faults are located

A fault of a token list names a position, and what stands there bears it out.

* **`located_of_faults`**, **`parse_fault_isLocated`**: where the faults of the second pass, and
  of both passes, are located.
-/

namespace WorkedAlgebra

open Window ParseFault

/-- **What stands at one place of a token list is evidence of a fault** with a given code. -/
inductive Symptom (w : List Token) (p : ℕ) : UInt16 → Prop
  | unpairedBracket {b : Bracket} (token : w[p]? = some (.bracket b)) : Symptom w p 103
  | missingOperand {op : Operator} (token : w[p]? = some (.operator op))
      (unary : op.isUnary = true) : Symptom w p 104
  | missingOperands {op : Operator} (token : w[p]? = some (.operator op))
      (binary : op.isBinary = true) : Symptom w p 105
  | adjacentOperands {t : Token} (token : w[p]? = some t) (operand : t.isOperator = false) :
      Symptom w p 106
  | emptyBrackets (token : w[p]? = some (.bracket .opening))
      (next : w[p + 1]? = some (.bracket .closing)) : Symptom w p 107
  | unexpectedLeftOperand {op : Operator} (token : w[p]? = some (.operator op))
      (unary : op.isUnary = true) (left : 0 < p) : Symptom w p 108

/-- **What stands in a token list is evidence of a fault** with a given code at a given position. -/
inductive Evidence (w : List Token) (p : ℕ) : UInt16 → Prop
  | closeWithoutOpen (token : w[p]? = some (.bracket .closing))
      (first : ∀ t ∈ w.take p, t.bracket? = none) : Evidence w p 101
  /-- The last bracket, where one kind of bracket is more frequent than the other. -/
  | unbalancedBrackets {b : Bracket} (token : w[p]? = some (.bracket b))
      (last : ∀ t ∈ w.drop (p + 1), t.bracket? = none)
      (differ : w.countP Token.isOpening ≠ w.countP Token.isClosing) : Evidence w p 102
  | onePlace {code : UInt16} (symptom : Symptom w p code) : Evidence w p code

theorem getElem?_embed (l w r : List Token) {p : ℕ} {t : Token} (h : w[p]? = some t) :
    (l ++ (w ++ r))[l.length + p]? = some t := by
  have hp : p < w.length := (List.getElem?_eq_some_iff.mp h).1
  rw [List.getElem?_append_right (by omega), Nat.add_sub_cancel_left,
    List.getElem?_append_left hp, h]

/-- **Evidence at one place of a window is evidence in every list that the window stands in.** -/
theorem Symptom.embed (l r : List Token) {w : List Token} {p : ℕ} {code : UInt16}
    (h : Symptom w p code) : Symptom (l ++ (w ++ r)) (l.length + p) code := by
  cases h with
  | unpairedBracket token => exact .unpairedBracket (getElem?_embed l w r token)
  | missingOperand token unary => exact .missingOperand (getElem?_embed l w r token) unary
  | missingOperands token binary => exact .missingOperands (getElem?_embed l w r token) binary
  | adjacentOperands token operand => exact .adjacentOperands (getElem?_embed l w r token) operand
  | emptyBrackets token next =>
    exact .emptyBrackets (getElem?_embed l w r token) (getElem?_embed l w r next)
  | unexpectedLeftOperand token unary left =>
    exact .unexpectedLeftOperand (getElem?_embed l w r token) unary (by omega)

theorem Symptom.lt_length {w : List Token} {p : ℕ} {code : UInt16} (h : Symptom w p code) :
    p < w.length := by
  cases h <;> exact (List.getElem?_eq_some_iff.mp ‹w[p]? = some _›).1

theorem Evidence.lt_length {w : List Token} {p : ℕ} {code : UInt16} (h : Evidence w p code) :
    p < w.length := by
  cases h with
  | closeWithoutOpen token => exact (List.getElem?_eq_some_iff.mp token).1
  | unbalancedBrackets token => exact (List.getElem?_eq_some_iff.mp token).1
  | onePlace symptom => exact symptom.lt_length

namespace ParseFault

/-- The operator that a fault names, if it names one, stands at a position of a token list. -/
def NamesAt (fault : ParseFault) (w : List Token) (p : ℕ) : Prop :=
  ∀ op, fault.operator? = some op → w[p]? = some (.operator op)

theorem namesAt_of_eq_some {fault : ParseFault} {w : List Token} {p : ℕ} {op : Operator}
    (h : fault.operator? = some op) (token : w[p]? = some (.operator op)) :
    fault.NamesAt w p := by
  intro op' hop
  rw [token, ← Option.some.inj (h.symm.trans hop)]

theorem namesAt_of_eq_none {fault : ParseFault} {w : List Token} {p : ℕ}
    (h : fault.operator? = none) : fault.NamesAt w p := by
  intro op hop
  rw [h] at hop
  cases hop

/-- A fault is **located in** a window: one place of the window is evidence of it. -/
def LocatedIn (fault : ParseFault) (start : ℕ) (w : List Token) : Prop :=
  ∃ p, fault.position? = some (start + p) ∧ Symptom w p fault.code ∧ fault.NamesAt w p

/-- **A fault that is located in a window is located in every list that the window stands in.** -/
theorem LocatedIn.embed {fault : ParseFault} {start : ℕ} {w : List Token} (l r : List Token)
    (h : fault.LocatedIn (start + l.length) w) : fault.LocatedIn start (l ++ (w ++ r)) := by
  obtain ⟨p, hp, symptom, names⟩ := h
  refine ⟨l.length + p, by rw [hp, Nat.add_assoc], symptom.embed l r, fun op hop => ?_⟩
  exact getElem?_embed l w r (names op hop)

end ParseFault

/-! ## The second pass -/

namespace Expr

/-- **Where the second pass meets a fault**: at a token that stands alone, at an operator, or where
no operator stands between operands; and how the fault is passed on. -/
inductive Faults : ℕ → List Token → ParseFault → Prop
  | token {start : ℕ} {t : Token} {fault : ParseFault}
      (h : ofToken start t = .error fault) : Faults start [t] fault
  | enclosed {start : ℕ} {inner : List Token} {fault : ParseFault}
      (unwrapped : unwrap? (enclose inner) = some inner)
      (inside : Faults (start + 1) inner fault) : Faults start (enclose inner) fault
  | left {start : ℕ} {l r : List Token} {op : Operator} {fault : ParseFault}
      (root : root? (l ++ .operator op :: r) = some (l.length, op))
      (side : Faults start l fault) : Faults start (l ++ .operator op :: r) fault
  | right {start : ℕ} {l r : List Token} {op : Operator} {fault : ParseFault}
      (root : root? (l ++ .operator op :: r) = some (l.length, op))
      (side : Faults (start + l.length + 1) r fault) : Faults start (l ++ .operator op :: r) fault
  | operator {start : ℕ} {l r : List Token} {op : Operator} {first second : Option Expr}
      {fault : ParseFault} (read : (build start l).outcome = .ok first)
      (h : apply op (start + l.length) first second = .error fault) :
      Faults start (l ++ .operator op :: r) fault
  | group {start : ℕ} {w : List Token} {g : ℕ × ℕ} {fault : ParseFault} (mem : g ∈ groups w)
      (inside : Faults (start + g.1) (slice w g.1 g.2) fault) : Faults start w fault
  | adjacent {start : ℕ} {w : List Token} (root : root? w = none) (several : 1 < w.length) :
      Faults start w (.adjacentOperands start)

theorem exists_of_fault?_groups {start : ℕ} {w : List Token} {fault : ParseFault}
    (h : ((groups w).findSome? fun g =>
      (build (start + g.1) (slice w g.1 g.2)).fault?) = some fault) :
    ∃ g ∈ groups w, (build (start + g.1) (slice w g.1 g.2)).outcome = .error fault := by
  obtain ⟨g, hg, hf⟩ := List.exists_of_findSome?_eq_some h
  exact ⟨g, hg, Traced.fault?_eq_some_iff.mp hf⟩

theorem faults_of_build {start : ℕ} {w : List Token} {fault : ParseFault}
    (h : (build start w).outcome = .error fault) : Faults start w fault := by
  induction start, w using window_induction with
  | enclosed start inner hu ih =>
    rw [outcome_build_of_unwrap? hu] at h
    exact .enclosed hu (ih h)
  | nil start =>
    rw [outcome_build_nil] at h
    cases h
  | singleton start t =>
    rw [outcome_build_singleton, Traced.map_eq_error_iff] at h
    exact .token h
  | split start l op r hu hr hl ih₁ ih₂ =>
    rw [outcome_build_append_operator hu hr hl] at h
    rcases Traced.bind_eq_error_iff.mp h with h | ⟨first, hf, h⟩
    · exact .left hr (ih₁ h)
    rcases Traced.bind_eq_error_iff.mp h with h | ⟨second, hs, h⟩
    · exact .right hr (ih₂ h)
    · exact .operator hf (Traced.map_eq_error_iff.mp h)
  | groups start w hu hr hl ih =>
    rw [outcome_build_groups hu hr hl] at h
    cases hg : (groups w).findSome? fun g => (build (start + g.1) (slice w g.1 g.2)).fault? with
    | none =>
      rw [hg] at h
      cases h
      exact .adjacent hr hl
    | some f =>
      rw [hg] at h
      obtain rfl : f = fault := Except.error.inj h
      obtain ⟨g, hm, hf⟩ := exists_of_fault?_groups hg
      exact .group hm (ih g hm hf)

theorem apply_eq_error {op : Operator} {position : ℕ} {first second : Option Expr}
    {fault : ParseFault} (h : apply op position first second = .error fault) :
    (fault = .missingOperand position (some op) ∧ op.isUnary = true) ∨
      (fault = .missingOperands position (some op) ∧ op.isBinary = true) ∨
        (fault = .unexpectedLeftOperand position op ∧ op.isUnary = true ∧ first ≠ none) := by
  rcases first with _ | a <;> rcases second with _ | b <;> cases hu : op.isUnary <;>
    simp only [apply, hu, if_true, Bool.false_eq_true, if_false, reduceCtorEq] at h <;>
    cases h <;> simp [op.isBinary_eq_not, hu]

theorem ofToken_eq_error {position : ℕ} {t : Token} {fault : ParseFault}
    (h : ofToken position t = .error fault) :
    (∃ op, t = .operator op ∧ op.isUnary = true ∧ fault = .missingOperand position none) ∨
      (∃ op, t = .operator op ∧ op.isBinary = true ∧ fault = .missingOperands position none) ∨
        ∃ b, t = .bracket b ∧ fault = .unpairedBracket position := by
  cases t with
  | value v => cases h
  | operator op =>
    rw [ofToken] at h
    cases hu : op.isUnary <;> simp_all [op.isBinary_eq_not]
  | bracket b =>
    cases h
    exact .inr (.inr ⟨b, rfl, rfl⟩)

end Expr

theorem located_of_ofToken {start : ℕ} {t : Token} {fault : ParseFault}
    (h : Expr.ofToken start t = .error fault) : fault.LocatedIn start [t] := by
  rcases Expr.ofToken_eq_error h with ⟨op, rfl, hu, rfl⟩ | ⟨op, rfl, hb, rfl⟩ | ⟨b, rfl, rfl⟩
  · exact ⟨0, rfl, (.missingOperand rfl hu), namesAt_of_eq_none rfl⟩
  · exact ⟨0, rfl, (.missingOperands rfl hb), namesAt_of_eq_none rfl⟩
  · exact ⟨0, rfl, (.unpairedBracket rfl), namesAt_of_eq_none rfl⟩

theorem located_of_apply {start : ℕ} {l r : List Token} {op : Operator}
    {first second : Option Expr} {fault : ParseFault}
    (hl : (Expr.build start l).outcome = .ok first)
    (h : Expr.apply op (start + l.length) first second = .error fault) :
    fault.LocatedIn start (l ++ .operator op :: r) := by
  have token : (l ++ .operator op :: r)[l.length]? = some (.operator op) := by simp
  rcases Expr.apply_eq_error h with ⟨rfl, hu⟩ | ⟨rfl, hb⟩ | ⟨rfl, hu, hf⟩
  · exact ⟨l.length, rfl, (.missingOperand token hu), namesAt_of_eq_some rfl token⟩
  · exact ⟨l.length, rfl, (.missingOperands token hb), namesAt_of_eq_some rfl token⟩
  · -- something was read on the left, so something stands there
    have left : 0 < l.length := by
      refine List.length_pos_iff.mpr ?_
      rintro rfl
      rw [Expr.outcome_build_nil] at hl
      exact hf (Except.ok.inj hl).symm
    exact ⟨l.length, rfl, (.unexpectedLeftOperand token hu left), namesAt_of_eq_some rfl token⟩

theorem located_of_adjacent {start : ℕ} {w : List Token} (root : root? w = none)
    (several : 1 < w.length) : (ParseFault.adjacentOperands start).LocatedIn start w := by
  cases w with
  | nil => simp at several
  | cons t w =>
    have operand : t.isOperator = false := by
      cases t with
      | operator op =>
        rw [root?_eq_none_iff, outerFrom_operator] at root
        cases root
      | value v => rfl
      | bracket b => rfl
    exact ⟨0, rfl, (.adjacentOperands rfl operand), namesAt_of_eq_none rfl⟩

/-- **A fault of the second pass is located in its window.** -/
theorem located_of_faults {start : ℕ} {w : List Token} {fault : ParseFault}
    (h : Expr.Faults start w fault) : fault.LocatedIn start w := by
  induction h with
  | token h => exact located_of_ofToken h
  | enclosed _ _ ih => exact ih.embed [.bracket .opening] [.bracket .closing]
  | @left start l r op _ _ _ ih => exact ih.embed [] (.operator op :: r)
  | @right start l r op fault _ _ ih =>
    have h := ParseFault.LocatedIn.embed (l ++ [.operator op]) []
      (by rw [List.length_append]; exact ih)
    rwa [List.append_nil, List.append_assoc, List.singleton_append] at h
  | operator read h => exact located_of_apply read h
  | group mem _ ih =>
    obtain ⟨l, r, hw, hl⟩ := exists_eq_append_of_mem_groups mem
    rw [hw]
    exact ParseFault.LocatedIn.embed l r (hl ▸ ih)
  | adjacent root several => exact located_of_adjacent root several

/-! ## The first pass -/

theorem Token.isUnary_eq_true_iff {t : Token} :
    t.isUnary = true ↔ ∃ op, t = .operator op ∧ op.isUnary = true := by
  cases t <;> simp [isUnary, operator?]

theorem Token.isBinary_eq_true_iff {t : Token} :
    t.isBinary = true ↔ ∃ op, t = .operator op ∧ op.isBinary = true := by
  cases t <;> simp [isBinary, operator?]

theorem Token.isOpening_eq_true_iff {t : Token} : t.isOpening = true ↔ t = .bracket .opening := by
  cases t <;> simp [isOpening, bracket?]

theorem Token.isClosing_eq_true_iff {t : Token} : t.isClosing = true ↔ t = .bracket .closing := by
  cases t <;> simp [isClosing, bracket?]

theorem Token.isOperator_of_isValue {t : Token} (h : t.isValue = true) : t.isOperator = false := by
  cases t <;> simp_all [isValue, value?, isOperator, operator?]

theorem located_of_pairFault? {i : ℕ} {previous current : Token} {rest : List Token}
    {fault : ParseFault} (h : pairFault? (i + 1) previous current = some fault) :
    fault.LocatedIn i (previous :: current :: rest) := by
  rw [pairFault?] at h
  split at h
  · next hc =>
    cases h
    obtain ⟨op, rfl, hb⟩ := Token.isBinary_eq_true_iff.mp (Bool.and_eq_true_iff.mp hc).2
    exact ⟨1, rfl, (.missingOperands rfl hb), namesAt_of_eq_none rfl⟩
  split at h
  · next hc =>
    cases h
    have operand := Token.isOperator_of_isValue (Bool.and_eq_true_iff.mp hc).2
    exact ⟨1, rfl, (.adjacentOperands rfl operand), namesAt_of_eq_none rfl⟩
  split at h
  · next hc =>
    cases h
    obtain ⟨op, rfl, hu⟩ := Token.isUnary_eq_true_iff.mp (Bool.and_eq_true_iff.mp hc).1
    exact ⟨0, rfl, (.missingOperand rfl hu), namesAt_of_eq_none rfl⟩
  split at h
  · next hc =>
    cases h
    obtain rfl := Token.isOpening_eq_true_iff.mp (Bool.and_eq_true_iff.mp hc).1
    obtain rfl := Token.isClosing_eq_true_iff.mp (Bool.and_eq_true_iff.mp hc).2
    exact ⟨0, rfl, (.emptyBrackets rfl rfl), namesAt_of_eq_none rfl⟩
  · cases h

theorem located_of_neighbourFault? {i : ℕ} {w : List Token} {fault : ParseFault}
    (h : neighbourFault? i w = some fault) : fault.LocatedIn i w := by
  fun_induction neighbourFault? i w with
  | case1 => cases h
  | case2 => cases h
  | case3 i previous current rest ih =>
    rcases Option.or_eq_some_iff.mp h with h | ⟨_, h⟩
    · exact located_of_pairFault? h
    · have hl := ParseFault.LocatedIn.embed [previous] [] (ih h)
      rwa [List.append_nil] at hl

theorem ofToken_of_loneFault? {t : Token} {fault : ParseFault} (h : loneFault? t = some fault) :
    Expr.ofToken 0 t = .error fault := by
  cases t with
  | value v => cases h
  | operator op => exact congrArg Except.error (Option.some.inj h)
  | bracket b => exact congrArg Except.error (Option.some.inj h)

theorem located_of_lastFault? {w : List Token} {t : Token} {fault : ParseFault}
    (h : lastFault? w.length t = some fault) : fault.LocatedIn 0 (w ++ [t]) := by
  have token : (w ++ [t])[w.length]? = some t := by simp
  have hp : some w.length = some (0 + w.length) := by rw [Nat.zero_add]
  rw [lastFault?] at h
  split at h
  · next hc =>
    cases h
    obtain ⟨op, rfl, hu⟩ := Token.isUnary_eq_true_iff.mp hc
    exact ⟨w.length, hp, (.missingOperand token hu), namesAt_of_eq_none rfl⟩
  split at h
  · next hc =>
    cases h
    obtain ⟨op, rfl, hb⟩ := Token.isBinary_eq_true_iff.mp hc
    exact ⟨w.length, hp, (.missingOperands token hb), namesAt_of_eq_none rfl⟩
  · cases h

theorem located_of_severalFault? {first : Token} {rest : List Token} {fault : ParseFault}
    (h : severalFault? first rest = some fault) : fault.LocatedIn 0 (first :: rest) := by
  rw [severalFault?] at h
  split at h
  · next hc =>
    cases h
    obtain ⟨op, rfl, hb⟩ := Token.isBinary_eq_true_iff.mp hc
    exact ⟨0, rfl, (.missingOperands rfl hb), namesAt_of_eq_none rfl⟩
  rcases Option.or_eq_some_iff.mp h with h | ⟨_, h⟩
  · exact located_of_neighbourFault? h
  · have hlast := List.dropLast_append_getLast (List.cons_ne_nil first rest)
    rw [← hlast]
    refine located_of_lastFault? ?_
    rwa [List.length_dropLast, List.length_cons, Nat.add_sub_cancel]

/-! ## Brackets -/

theorem evidence_of_bracketFault? {w : List Token} {fault : ParseFault}
    (h : bracketFault? w = some fault) :
    (fault.code = 101 ∨ fault.code = 102) ∧ fault.operator? = none ∧
      ∃ p, fault.position? = some p ∧ Evidence w p fault.code := by
  rw [bracketFault?] at h
  split at h
  · next i bs hb =>
    cases h
    rw [← List.nil_append ((_, i) :: bs)] at hb
    obtain ⟨l, r, rfl, rfl, hl, -⟩ := exists_of_brackets_eq hb
    have token : (l ++ .bracket .closing :: r)[l.length]? = some (.bracket .closing) := by simp
    refine ⟨.inl rfl, rfl, l.length, rfl, .closeWithoutOpen token ?_⟩
    rw [List.take_left]
    exact List.filterMap_eq_nil_iff.mp hl
  · next hfirst =>
    dsimp only at h
    rw [countP_brackets, countP_brackets, count_bracket?_opening, count_bracket?_closing] at h
    split at h
    · cases h
    · next differ =>
      rcases List.eq_nil_or_concat (brackets w) with hb | ⟨bs, ⟨b, i⟩, hb⟩
      · -- without brackets there are as many of one kind as of the other
        rw [← count_bracket?_opening, ← count_bracket?_closing, ← map_fst_brackets, hb] at differ
        exact absurd rfl differ
      · rw [List.concat_eq_append] at hb
        cases h
        obtain ⟨l, r, rfl, rfl, -, hr⟩ := exists_of_brackets_eq hb
        have token : (l ++ .bracket b :: r)[l.length]? = some (.bracket b) := by simp
        refine ⟨.inr rfl, rfl, l.length, ?_, .unbalancedBrackets token ?_ differ⟩
        · rw [hb, List.getLast?_concat]
          rfl
        · rw [List.append_cons, List.drop_left' (by simp)]
          exact List.filterMap_eq_nil_iff.mp hr

theorem bracketFault?_ne_none {w : List Token}
    (h : w.countP Token.isOpening ≠ w.countP Token.isClosing) : bracketFault? w ≠ none := by
  rw [← count_bracket?_opening, ← count_bracket?_closing] at h
  exact fun hn => h (bracketFault?_eq_none_iff.mp hn).2

/-! ## Brackets without a partner -/

theorem Expr.Faults.code_ne {start : ℕ} {w : List Token} {fault : ParseFault}
    (h : Faults start w fault) (hw : Nested w) : fault.code ≠ 103 := by
  induction h with
  | token h =>
    rcases ofToken_eq_error h with ⟨_, _, _, rfl⟩ | ⟨_, _, _, rfl⟩ | ⟨b, rfl, _⟩
    · simp [ParseFault.code]
    · simp [ParseFault.code]
    · exact absurd hw.plain_of_singleton (by simp [Token.bracket?])
  | enclosed unwrapped _ ih => exact ih (hw.of_enclose unwrapped)
  | left root _ ih => exact ih (hw.of_split root).1
  | right root _ ih => exact ih (hw.of_split root).2
  | operator _ h =>
    rcases apply_eq_error h with ⟨rfl, _⟩ | ⟨rfl, _⟩ | ⟨rfl, _⟩ <;> simp [ParseFault.code]
  | group mem _ ih => exact ih (hw.of_mem_groups mem)
  | adjacent => simp [ParseFault.code]

theorem code_ne_of_pairFault? {i : ℕ} {previous current : Token} {fault : ParseFault}
    (h : pairFault? i previous current = some fault) : fault.code ≠ 103 := by
  rw [pairFault?] at h
  split_ifs at h <;> cases h <;> simp [ParseFault.code]

theorem code_ne_of_neighbourFault? {i : ℕ} {w : List Token} {fault : ParseFault}
    (h : neighbourFault? i w = some fault) : fault.code ≠ 103 := by
  fun_induction neighbourFault? i w with
  | case1 => cases h
  | case2 => cases h
  | case3 i previous current rest ih =>
    rcases Option.or_eq_some_iff.mp h with h | ⟨_, h⟩
    · exact code_ne_of_pairFault? h
    · exact ih h

theorem code_ne_of_severalFault? {first : Token} {rest : List Token} {fault : ParseFault}
    (h : severalFault? first rest = some fault) : fault.code ≠ 103 := by
  rw [severalFault?] at h
  split at h
  · cases h
    simp [ParseFault.code]
  rcases Option.or_eq_some_iff.mp h with h | ⟨_, h⟩
  · exact code_ne_of_neighbourFault? h
  · rw [lastFault?] at h
    split_ifs at h <;> cases h <;> simp [ParseFault.code]

/-! ## Both passes -/

/-- **A fault that the checks on neighbours find** is that of an empty list, concerns its brackets,
or is located in it. Where the brackets nest, none is without its partner. -/
theorem localFault?_cases {w : List Token} {fault : ParseFault} (h : localFault? w = some fault) :
    (w = [] ∧ fault = .expressionRequired) ∨ bracketFault? w = some fault ∨
      fault.LocatedIn 0 w ∧ (Nested w → fault.code ≠ 103) := by
  cases w with
  | nil => exact .inl ⟨rfl, (Option.some.inj h).symm⟩
  | cons first rest =>
    rw [localFault?] at h
    rcases Option.or_eq_some_iff.mp h with h | ⟨_, h⟩
    · exact .inr (.inl h)
    refine .inr (.inr ?_)
    cases rest with
    | nil =>
      have ho := ofToken_of_loneFault? h
      exact ⟨located_of_ofToken ho, fun hw => (Expr.Faults.token ho).code_ne hw⟩
    | cons second rest => exact ⟨located_of_severalFault? h, fun _ => code_ne_of_severalFault? h⟩

theorem parse_error_cases {tokens : List Token} {fault : ParseFault}
    (h : Expr.parse tokens = .error fault) :
    (tokens = [] ∧ fault = .expressionRequired) ∨ bracketFault? tokens = some fault ∨
      fault.LocatedIn 0 tokens ∧ (Nested tokens → fault.code ≠ 103) := by
  rcases parse_eq_error_iff.mp h with h | ⟨_, h⟩
  · exact localFault?_cases h
  · have hf := Expr.faults_of_build h
    exact .inr (.inr ⟨located_of_faults hf, hf.code_ne⟩)

theorem ParseFault.LocatedIn.code_ne {fault : ParseFault} {start : ℕ} {w : List Token}
    (h : fault.LocatedIn start w) : fault.code ≠ 100 ∧ fault.code ≠ 101 ∧ fault.code ≠ 102 := by
  obtain ⟨p, -, symptom, -⟩ := h
  generalize fault.code = code at symptom
  cases symptom <;> decide

/-- **A list with more brackets of one kind than of the other is refused because of its brackets**,
whatever else is wrong with it. -/
theorem parse_eq_error_of_bracketFault? {tokens : List Token} {fault : ParseFault}
    (h₀ : tokens ≠ []) (h : bracketFault? tokens = some fault) :
    Expr.parse tokens = .error fault := by
  obtain ⟨first, rest, rfl⟩ := List.exists_cons_of_ne_nil h₀
  refine parse_eq_error_iff.mpr (.inl ?_)
  rw [localFault?, h, Option.some_or]

/-- **The fault of a token list is located**: the token at its position is evidence of it, and is
the operator that it names. Only the empty list is refused without a position. -/
theorem parse_fault_isLocated (tokens : List Token) :
    ((∃ fault, Expr.parse tokens = .error fault ∧ fault.code = 100) ↔ tokens = []) ∧
    (∀ fault, Expr.parse tokens = .error fault →
      (fault.code = 100 ∧ fault.position? = none ∧ fault.operator? = none) ∨
        ∃ p < tokens.length, fault.position? = some p ∧ Evidence tokens p fault.code ∧
          ∀ op, fault.operator? = some op → tokens[p]? = some (.operator op)) ∧
    (tokens ≠ [] → tokens.countP Token.isOpening ≠ tokens.countP Token.isClosing →
      ∃ fault, Expr.parse tokens = .error fault ∧ (fault.code = 101 ∨ fault.code = 102)) ∧
    (Nested tokens → ∀ fault, Expr.parse tokens = .error fault →
      fault.code ≠ 101 ∧ fault.code ≠ 102 ∧ fault.code ≠ 103) := by
  refine ⟨⟨?_, ?_⟩, fun fault h => ?_, fun h₀ differ => ?_, fun hw fault h => ?_⟩
  · rintro ⟨fault, h, hc⟩
    rcases parse_error_cases h with ⟨h₀, _⟩ | hb | ⟨hl, _⟩
    · exact h₀
    · rcases (evidence_of_bracketFault? hb).1 with h' | h' <;> rw [hc] at h' <;> cases h'
    · exact absurd hc hl.code_ne.1
  · rintro rfl
    exact ⟨.expressionRequired, rfl, rfl⟩
  · rcases parse_error_cases h with ⟨_, rfl⟩ | hb | ⟨⟨p, hp, symptom, names⟩, _⟩
    · exact .inl ⟨rfl, rfl, rfl⟩
    · obtain ⟨-, hn, p, hp, evidence⟩ := evidence_of_bracketFault? hb
      exact .inr ⟨p, evidence.lt_length, hp, evidence, namesAt_of_eq_none hn⟩
    · rw [Nat.zero_add] at hp
      exact .inr ⟨p, symptom.lt_length, hp, .onePlace symptom, names⟩
  · obtain ⟨fault, hb⟩ := Option.ne_none_iff_exists'.mp (bracketFault?_ne_none differ)
    exact ⟨fault, parse_eq_error_of_bracketFault? h₀ hb, (evidence_of_bracketFault? hb).1⟩
  · rcases parse_error_cases h with ⟨_, rfl⟩ | hb | ⟨hl, hn⟩
    · exact ⟨by decide, by decide, by decide⟩
    · rw [hw.bracketFault?_eq_none] at hb
      cases hb
    · exact ⟨hl.code_ne.2.1, hl.code_ne.2.2, hn hw⟩

/-- The fault of `2 * (3 det 4)` is located at the determinant inside the brackets; with a closing
bracket more the list is refused because of its brackets. -/
theorem parse_fault_isLocated_of_group :
    let n (i : Int) : Token := .value (.scalar (.ofInt i))
    let tokens : List Token := [n 2, .operator .scalarMultiply] ++
      enclose [n 3, .operator .determinant, n 4]
    let uneven : List Token := tokens ++ [.bracket .closing]
    Expr.parse tokens = .error (.unexpectedLeftOperand 4 .determinant) ∧ Nested tokens ∧
      Evidence tokens 4 108 ∧ tokens[4]? = some (.operator .determinant) ∧
      (∀ fault, Expr.parse tokens = .error fault →
        fault.code ≠ 101 ∧ fault.code ≠ 102 ∧ fault.code ≠ 103) ∧
      ∃ fault, Expr.parse uneven = .error fault ∧ (fault.code = 101 ∨ fault.code = 102) := by
  intro n tokens uneven
  have inside : (Expr.build 3 [n 3, .operator .determinant, n 4]).outcome =
      .error (.unexpectedLeftOperand 4 .determinant) := by
    refine (Expr.outcome_build_append_operator (l := [_]) rfl rfl (by decide) 3).trans ?_
    rw [Expr.outcome_build_singleton, Expr.outcome_build_singleton]
    rfl
  have hp : Expr.parse tokens = .error (.unexpectedLeftOperand 4 .determinant) := by
    refine parse_eq_error_iff.mpr (.inr ⟨rfl, ?_⟩)
    refine (Expr.outcome_build_append_operator (l := [_]) rfl rfl (by decide) 0).trans ?_
    exact Traced.bind_eq_error_iff.mpr (.inr ⟨_, Expr.outcome_build_singleton 0 (n 2),
      Traced.bind_eq_error_iff.mpr (.inl ((Expr.outcome_build_of_unwrap? rfl 2).trans inside))⟩)
  have hw : Nested tokens :=
    .atom rfl (.atom rfl (Nested.enclose (.atom rfl (.atom rfl (.atom rfl .nil)))))
  obtain ⟨-, located, -, nested⟩ := parse_fault_isLocated tokens
  rcases located _ hp with ⟨hc, _⟩ | ⟨p, -, hpos, evidence, names⟩
  · cases hc
  obtain rfl : 4 = p := Option.some.inj hpos
  exact ⟨hp, hw, evidence, names _ rfl, nested hw,
    (parse_fault_isLocated uneven).2.2.1 (by simp [uneven]) (by decide)⟩

end WorkedAlgebra
