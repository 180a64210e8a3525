import WorkedAlgebra.Calculation
import WorkedAlgebra.Proofs.Evaluation.Mirror
import WorkedAlgebra.Proofs.Expr.Reading

/-!
# Calculations and their outcomes

* **`calculate_eq_leaf_iff`**, **`Outcome.packages_ofTokens`**: for which token lists nothing is
  worked, and what an outcome holds of a calculation.
-/

namespace WorkedAlgebra

variable {limits : Limits} {tokens : List Token} {e : Expr} {t : WorkTree} {v : Value}

/-! ## Limits -/

/-- A token list is no longer than the limit, if there is one. -/
def Limits.Admits (limits : Limits) (tokens : List Token) : Prop :=
  ∀ limit, limits.maxTokens = some limit → tokens.length ≤ limit.toNat

theorem Limits.admits_unlimited (tokens : List Token) : Limits.unlimited.Admits tokens := by
  intro limit hlimit
  cases hlimit

theorem Limits.check_of_admits (h : limits.Admits tokens) : limits.check tokens = .ok () := by
  unfold check
  split
  · next limit hlimit => rw [if_neg (Nat.not_lt.mpr (h limit hlimit))]
  · rfl

theorem Limits.check_of_exceeds {limit : UInt64} (hlimit : limits.maxTokens = some limit)
    (h : limit.toNat < tokens.length) :
    limits.check tokens = .error (.tooLong tokens.length limit) := by
  unfold check
  rw [hlimit]
  exact if_pos h

theorem Limits.check_eq_ok_iff : limits.check tokens = .ok () ↔ limits.Admits tokens := by
  refine ⟨fun h limit hlimit => ?_, check_of_admits⟩
  by_contra hlong
  rw [check_of_exceeds hlimit (Nat.not_le.mp hlong)] at h
  cases h

/-! ## Calculations without what is reported -/

theorem outcome_calculateTraced (limits : Limits) (tokens : List Token) :
    (calculateTraced limits tokens).outcome = (do
      limits.check tokens
      let e ← (Expr.parse tokens).mapError .malformed
      let tree ← e.evaluate.mapError .unworkable
      pure (e, tree)) := by
  simp only [calculateTraced, Traced.outcome_bind, Traced.outcome_emit, Traced.outcome_ofExcept,
    Traced.outcome_mapFault]
  rfl

theorem outcome_calculateTraced_of_admits (h : limits.Admits tokens) :
    (calculateTraced limits tokens).outcome = (calculateTraced .unlimited tokens).outcome := by
  have hun : Limits.unlimited.check tokens = .ok () := rfl
  rw [outcome_calculateTraced, outcome_calculateTraced, Limits.check_of_admits h, hun]

theorem outcome_calculateTraced_of_exceeds {limit : UInt64}
    (hlimit : limits.maxTokens = some limit) (h : limit.toNat < tokens.length) :
    (calculateTraced limits tokens).outcome = .error (.tooLong tokens.length limit) := by
  rw [outcome_calculateTraced, Limits.check_of_exceeds hlimit h]
  rfl

theorem mapError_eq_ok_iff {ε ε' α : Type} {f : ε → ε'} {x : Except ε α} {a : α} :
    x.mapError f = .ok a ↔ x = .ok a := by
  cases x <;> simp [Except.mapError]

theorem outcome_calculateTraced_eq_ok_iff :
    (calculateTraced limits tokens).outcome = .ok (e, t) ↔
      limits.Admits tokens ∧ Expr.parse tokens = .ok e ∧ e.evaluate = .ok t := by
  rw [outcome_calculateTraced]
  simp only [Traced.bind_eq_ok_iff, mapError_eq_ok_iff, pure, Except.pure, Except.ok.injEq,
    Prod.mk.injEq]
  constructor
  · rintro ⟨⟨⟩, h, e, he, t, ht, rfl, rfl⟩
    exact ⟨Limits.check_eq_ok_iff.mp h, he, ht⟩
  · rintro ⟨h, he, ht⟩
    exact ⟨(), Limits.check_of_admits h, e, he, t, ht, rfl, rfl⟩

theorem outcome_calculateTraced_of_derives {k : ℕ} (h : limits.Admits tokens)
    (hd : Derives k tokens e) (ht : e.evaluate = .ok t) :
    (calculateTraced limits tokens).outcome = .ok (e, t) :=
  outcome_calculateTraced_eq_ok_iff.mpr
    ⟨h, parse_eq_ok_iff.mpr ⟨hd.localFault?_eq_none, hd.outcome_build 0⟩, ht⟩

theorem outcome_calculateTraced_of_unworkable {k : ℕ} {fault : EvalFault}
    (h : limits.Admits tokens) (hd : Derives k tokens e) (hf : e.evaluate = .error fault) :
    (calculateTraced limits tokens).outcome = .error (.unworkable fault) := by
  have hp : Expr.parse tokens = .ok e :=
    parse_eq_ok_iff.mpr ⟨hd.localFault?_eq_none, hd.outcome_build 0⟩
  rw [outcome_calculateTraced, Limits.check_of_admits h, hp]
  change (e.evaluate.mapError Fault.unworkable).bind (fun tree => .ok (e, tree)) = _
  rw [hf]
  rfl

theorem calculate_eq_ok_iff :
    calculate limits tokens = .ok t ↔
      ∃ e, (calculateTraced limits tokens).outcome = .ok (e, t) := by
  unfold calculate
  cases (calculateTraced limits tokens).outcome <;> simp [Except.map, Prod.ext_iff]

theorem calculate_eq_error_iff {fault : Fault} :
    calculate limits tokens = .error fault ↔
      (calculateTraced limits tokens).outcome = .error fault := by
  unfold calculate
  cases (calculateTraced limits tokens).outcome <;> simp [Except.map]

/-- **A token list that is longer than the limit is refused, at the position of the limit.** -/
theorem calculate_of_exceeds {limit : UInt64} (hlimit : limits.maxTokens = some limit)
    (h : limit.toNat < tokens.length) :
    ∃ fault, calculate limits tokens = .error fault ∧
      Outcome.ofTokens limits tokens = .ofReport fault.report ∧
      fault.report.code = 109 ∧ fault.report.position = some limit := by
  have hx := outcome_calculateTraced_of_exceeds hlimit h
  refine ⟨.tooLong tokens.length limit, calculate_eq_error_iff.mpr hx, ?_, rfl, rfl⟩
  rw [Outcome.ofTokens, hx]
  rfl

/-- **Any other token list is calculated as without a limit.** -/
theorem calculate_of_admits (h : limits.Admits tokens) :
    calculate limits tokens = calculate .unlimited tokens := by
  rw [calculate, calculate, outcome_calculateTraced_of_admits h]

theorem Outcome.ofTokens_of_admits (h : limits.Admits tokens) :
    ofTokens limits tokens = ofTokens .unlimited tokens := by
  rw [ofTokens, ofTokens, outcome_calculateTraced_of_admits h]

/-! ## Lone values -/

namespace Token

/-- A value inside so many pairs of brackets. -/
def enclosed (n : ℕ) (v : Value) : List Token :=
  List.replicate n (.bracket .opening) ++ .value v :: List.replicate n (.bracket .closing)

theorem enclose_enclosed (n : ℕ) (v : Value) :
    Window.enclose (enclosed n v) = enclosed (n + 1) v := by
  rw [Window.enclose, enclosed, enclosed, List.append_assoc, List.cons_append,
    ← List.replicate_succ', ← List.cons_append, ← List.replicate_succ]

theorem derives_enclosed (n : ℕ) (v : Value) : Derives 5 (enclosed n v) (.value v) := by
  induction n with
  | zero => exact .value v
  | succ n ih =>
    rw [← enclose_enclosed]
    exact (ih.lower (by omega) (by omega)).group

end Token

theorem Derives.eq_enclosed {k : ℕ} {w : List Token} {e : Expr} (h : Derives k w e)
    (he : e = .value v) : ∃ n, w = Token.enclosed n v := by
  induction h with
  | value u =>
    obtain rfl : u = v := by simpa using he
    exact ⟨0, rfl⟩
  | group _ ih =>
    obtain ⟨n, rfl⟩ := ih he
    exact ⟨n + 1, Token.enclose_enclosed n v⟩
  | unary => cases he
  | binary => cases he
  | lift _ _ ih => exact ih he

/-- **Exactly a value inside any number of pairs of brackets is read as that value.** -/
theorem parse_eq_value_iff :
    Expr.parse tokens = .ok (.value v) ↔ ∃ n, tokens = Token.enclosed n v := by
  rw [parse_eq_ok_iff]
  constructor
  · rintro ⟨hl, hb⟩
    exact (derives_of_build hb (noEmptyBrackets_of_localFault? hl)).eq_enclosed rfl
  · rintro ⟨n, rfl⟩
    have h := Token.derives_enclosed n v
    exact ⟨h.localFault?_eq_none, h.outcome_build 0⟩

theorem evaluate_eq_leaf_iff : e.evaluate = .ok .leaf ↔ ∃ v, e = .value v := by
  constructor
  · intro h
    obtain ⟨u, hu⟩ := Expr.evaluate_eq_ok_iff.mp h
    exact (Expr.mirrors_of_work hu).eq_leaf_iff.mp rfl
  · rintro ⟨v, rfl⟩
    rfl

/-- **Nothing is worked exactly for a value inside any number of pairs of brackets.** -/
theorem calculate_eq_leaf_iff :
    calculate limits tokens = .ok .leaf ↔
      limits.Admits tokens ∧ ∃ n v, tokens = Token.enclosed n v := by
  simp only [calculate_eq_ok_iff, outcome_calculateTraced_eq_ok_iff, evaluate_eq_leaf_iff]
  constructor
  · rintro ⟨e, h, he, v, rfl⟩
    obtain ⟨n, hn⟩ := parse_eq_value_iff.mp he
    exact ⟨h, n, v, hn⟩
  · rintro ⟨h, n, v, hn⟩
    exact ⟨.value v, h, parse_eq_value_iff.mpr ⟨n, hn⟩, v, rfl⟩

/-! ## Outcomes -/

theorem WorkTree.Mirrors.getLast?_trace {s : Solution} {first second : WorkTree}
    (h : (node s first second).Mirrors e) :
    (node s first second).trace.getLast? = some (.plain s.answer) := by
  rw [trace, List.getLast?_append, h.restates s (by simp [solutions]), Option.some_or]

/-- An outcome **packages** the result of a calculation: solutions come with their answer and their
steps, a value in brackets with itself, a fault with its report. -/
inductive Outcome.Packages (tokens : List Token) : Except Fault WorkTree → Outcome → Prop
  | worked (s : Solution) (first second : WorkTree)
      (last : (WorkTree.node s first second).trace.getLast?.map Step.value = some s.answer) :
      Packages tokens (.ok (.node s first second))
        ⟨true, some s.answer, .node s first second, (WorkTree.node s first second).trace, none⟩
  | value (n : ℕ) (v : Value) (lone : tokens = Token.enclosed n v) :
      Packages tokens (.ok .leaf) ⟨true, some v, .leaf, [], none⟩
  | fault (fault : Fault) :
      Packages tokens (.error fault) ⟨false, none, .leaf, [], some fault.report⟩

/-- **The outcome of a token list packages its calculation.** -/
theorem Outcome.packages_ofTokens (limits : Limits) (tokens : List Token) :
    Packages tokens (calculate limits tokens) (ofTokens limits tokens) := by
  unfold ofTokens
  cases h : (calculateTraced limits tokens).outcome with
  | error fault =>
    rw [calculate_eq_error_iff.mpr h]
    exact .fault fault
  | ok result =>
    obtain ⟨e, t⟩ := result
    obtain ⟨-, he, ht⟩ := outcome_calculateTraced_eq_ok_iff.mp h
    rw [calculate_eq_ok_iff.mpr ⟨e, h⟩]
    obtain ⟨v, hv⟩ := Expr.evaluate_eq_ok_iff.mp ht
    have hm := Expr.mirrors_of_work hv
    cases t with
    | leaf =>
      obtain ⟨v, rfl⟩ := hm.eq_leaf_iff.mp rfl
      obtain ⟨n, hn⟩ := parse_eq_value_iff.mp he
      exact .value n v hn
    | node s first second =>
      exact .worked s first second (by rw [hm.getLast?_trace]; rfl)

theorem Outcome.Packages.success_iff {result : Except Fault WorkTree} {o : Outcome}
    (h : Packages tokens result o) : o.success = true ↔ ∃ t, result = .ok t := by
  cases h <;> simp

end WorkedAlgebra
