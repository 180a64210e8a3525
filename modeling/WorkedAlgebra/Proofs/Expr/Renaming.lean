import Mathlib.Tactic.SplitIfs
import WorkedAlgebra.Proofs.Expr.Reading

/-!
# Reading renamed tokens

What the values are, and which operators of one arity and rank stand there, only shows in the
expression that is read and in the operator that a fault names (**`Renaming.parse_map`**).
-/

namespace WorkedAlgebra

open Window

/-- A **renaming** changes values at will, and operators into ones of the same arity and rank. -/
structure Renaming where
  value : Value → Value
  operator : Operator → Operator
  arity_operator (op : Operator) : (operator op).arity = op.arity
  strength_operator (op : Operator) : (operator op).strength = op.strength

namespace Renaming

variable (ρ : Renaming)

def ofValues (f : Value → Value) : Renaming :=
  ⟨f, id, fun _ => rfl, fun _ => rfl⟩

def token : Token → Token
  | .value v => .value (ρ.value v)
  | .operator op => .operator (ρ.operator op)
  | .bracket b => .bracket b

def expr : Expr → Expr
  | .value v => .value (ρ.value v)
  | .unary op operand => .unary (ρ.operator op) (expr operand)
  | .binary op first second => .binary (ρ.operator op) (expr first) (expr second)

/-- A fault with the operator that it names renamed. -/
def fault : ParseFault → ParseFault
  | .missingOperand position op => .missingOperand position (op.map ρ.operator)
  | .missingOperands position op => .missingOperands position (op.map ρ.operator)
  | .unexpectedLeftOperand position op => .unexpectedLeftOperand position (ρ.operator op)
  | f => f

/-- What comes out on renamed tokens, from what comes out on the tokens themselves. -/
def result {α β : Type} (f : α → β) (x : Except ParseFault α) : Except ParseFault β :=
  (x.map f).mapError ρ.fault

theorem result_bind {α β γ δ : Type} {f : α → β} {g : γ → δ} {x : Except ParseFault α}
    {k : α → Except ParseFault γ} {k' : β → Except ParseFault δ}
    (h : ∀ a, k' (f a) = ρ.result g (k a)) : ρ.result f x >>= k' = ρ.result g (x >>= k) := by
  cases x with
  | error e => rfl
  | ok a => exact h a

theorem result_eq_ok_iff {α β : Type} {f : α → β} {x : Except ParseFault α} {b : β} :
    ρ.result f x = .ok b ↔ ∃ a, x = .ok a ∧ f a = b := by
  cases x with
  | error e => exact iff_of_false nofun fun ⟨_, h, _⟩ => nomatch h
  | ok a =>
    change Except.ok (f a) = .ok b ↔ _
    simp

theorem result_eq_error_iff {α β : Type} {f : α → β} {x : Except ParseFault α}
    {fault : ParseFault} :
    ρ.result f x = .error fault ↔ ∃ e, x = .error e ∧ ρ.fault e = fault := by
  cases x with
  | error e =>
    change Except.error (ρ.fault e) = .error fault ↔ _
    simp
  | ok a => exact iff_of_false nofun fun ⟨_, h, _⟩ => nomatch h

@[simp] theorem code_fault (f : ParseFault) : (ρ.fault f).code = f.code := by
  cases f <;> rfl

@[simp] theorem position?_fault (f : ParseFault) : (ρ.fault f).position? = f.position? := by
  cases f <;> rfl

@[simp] theorem operator?_fault (f : ParseFault) :
    (ρ.fault f).operator? = f.operator?.map ρ.operator := by
  cases f <;> rfl

/-! ## Operators and tokens -/

@[simp] theorem isUnary_operator (op : Operator) : (ρ.operator op).isUnary = op.isUnary := by
  rw [Operator.isUnary, ρ.arity_operator, Operator.isUnary]

@[simp] theorem isBinary_operator (op : Operator) : (ρ.operator op).isBinary = op.isBinary := by
  rw [Operator.isBinary, ρ.arity_operator, Operator.isBinary]

@[simp] theorem isValue_token (t : Token) : (ρ.token t).isValue = t.isValue := by
  cases t <;> rfl

@[simp] theorem isOperator_token (t : Token) : (ρ.token t).isOperator = t.isOperator := by
  cases t <;> rfl

@[simp] theorem isUnary_token (t : Token) : (ρ.token t).isUnary = t.isUnary := by
  cases t with
  | operator op => exact ρ.isUnary_operator op
  | _ => rfl

@[simp] theorem isBinary_token (t : Token) : (ρ.token t).isBinary = t.isBinary := by
  cases t with
  | operator op => exact ρ.isBinary_operator op
  | _ => rfl

@[simp] theorem bracket?_token (t : Token) : (ρ.token t).bracket? = t.bracket? := by
  cases t <;> rfl

@[simp] theorem isOpening_token (t : Token) : (ρ.token t).isOpening = t.isOpening := by
  rw [Token.isOpening, bracket?_token, Token.isOpening]

@[simp] theorem isClosing_token (t : Token) : (ρ.token t).isClosing = t.isClosing := by
  rw [Token.isClosing, bracket?_token, Token.isClosing]

theorem token_eq_bracket_iff {t : Token} {b : Bracket} :
    ρ.token t = .bracket b ↔ t = .bracket b := by
  cases t <;> simp [token]

/-! ## The first pass -/

theorem brackets_map (w : List Token) : brackets (w.map ρ.token) = brackets w := by
  unfold brackets
  rw [List.zipIdx_map, List.filterMap_map]
  congr 1
  funext p
  simp

theorem bracketFault?_map (w : List Token) :
    bracketFault? (w.map ρ.token) = (bracketFault? w).map ρ.fault := by
  unfold bracketFault?
  rw [ρ.brackets_map]
  split
  · rfl
  · dsimp only
    split_ifs <;> rfl

theorem loneFault?_token (t : Token) : loneFault? (ρ.token t) = (loneFault? t).map ρ.fault := by
  cases t with
  | operator op =>
    simp only [token, loneFault?, isUnary_operator]
    split_ifs <;> rfl
  | _ => rfl

theorem pairFault?_token (position : Nat) (previous current : Token) :
    pairFault? position (ρ.token previous) (ρ.token current) =
      (pairFault? position previous current).map ρ.fault := by
  simp only [pairFault?, isOperator_token, isBinary_token, isValue_token, isUnary_token,
    isOpening_token, isClosing_token]
  split_ifs <;> rfl

theorem neighbourFault?_map (i : Nat) (w : List Token) :
    neighbourFault? i (w.map ρ.token) = (neighbourFault? i w).map ρ.fault := by
  fun_induction neighbourFault? i w with
  | case1 => rfl
  | case2 => rfl
  | case3 i previous current rest ih =>
    rw [Option.map_or, ← ih, ← pairFault?_token]
    rfl

theorem lastFault?_token (position : Nat) (t : Token) :
    lastFault? position (ρ.token t) = (lastFault? position t).map ρ.fault := by
  simp only [lastFault?, isUnary_token, isBinary_token]
  split_ifs <;> rfl

theorem severalFault?_map (first : Token) (rest : List Token) :
    severalFault? (ρ.token first) (rest.map ρ.token) =
      (severalFault? first rest).map ρ.fault := by
  simp only [severalFault?, isBinary_token]
  split_ifs
  · rfl
  · simp only [Option.map_or, ← neighbourFault?_map, ← lastFault?_token, ← List.map_cons,
      List.getLast_map, List.length_map]

theorem localFault?_map (w : List Token) :
    localFault? (w.map ρ.token) = (localFault? w).map ρ.fault := by
  cases w with
  | nil => rfl
  | cons first rest =>
    simp only [localFault?, List.map_cons, Option.map_or, ← bracketFault?_map]
    congr 1
    rw [List.isEmpty_map]
    split_ifs
    · exact ρ.loneFault?_token first
    · exact ρ.severalFault?_map first rest

theorem outcome_validate_map (w : List Token) :
    (validate (w.map ρ.token)).outcome = ρ.result id (validate w).outcome := by
  unfold validate
  rw [localFault?_map, List.length_map]
  cases localFault? w with
  | some f => rfl
  | none =>
    dsimp only [Option.map_none]
    split_ifs <;> rfl

/-! ## Windows -/

theorem closesWithin_map (n : Nat) (w : List Token) :
    closesWithin n (w.map ρ.token) = closesWithin n w := by
  induction w generalizing n with
  | nil => rfl
  | cons t w ih =>
    cases n with
    | zero => simp only [closesWithin]
    | succ n =>
      rcases t with v | op | (_ | _)
      · exact ih (n + 1)
      · exact ih (n + 1)
      · exact ih (n + 2)
      · exact ih n

theorem unwrap?_map (w : List Token) :
    unwrap? (w.map ρ.token) = (unwrap? w).map (List.map ρ.token) := by
  rcases w with _ | ⟨v | op | (_ | _), w⟩
  · rfl
  · rfl
  · rfl
  · have hlast : (w.map ρ.token).getLast? = some (.bracket .closing) ↔
        w.getLast? = some (.bracket .closing) := by
      simp [List.getLast?_map, token_eq_bracket_iff]
    simp only [List.map_cons, token, unwrap?, hlast, ← List.map_dropLast, closesWithin_map]
    split_ifs <;> rfl
  · rfl

theorem all_replaces (op : Operator) (candidate : Option (Nat × Operator)) :
    (candidate.map (Prod.map id ρ.operator)).all (fun c => replaces (ρ.operator op) c.2) =
      candidate.all fun c => replaces op c.2 := by
  cases candidate <;> simp [replaces, ρ.strength_operator]

theorem rootFrom_map (i depth : Nat) (candidate : Option (Nat × Operator)) (w : List Token) :
    rootFrom i depth (candidate.map (Prod.map id ρ.operator)) (w.map ρ.token) =
      (rootFrom i depth candidate w).map (Prod.map id ρ.operator) := by
  fun_induction rootFrom i depth candidate w with
  | case1 => rfl
  | case2 i depth candidate w ih | case3 i depth candidate w ih | case4 i depth candidate v w ih =>
    exact ih
  | case5 i depth candidate op w h ih =>
    rw [List.map_cons, token, rootFrom, all_replaces, if_pos h]
    exact ih
  | case6 i depth candidate op w h ih =>
    rw [List.map_cons, token, rootFrom, all_replaces, if_neg h]
    exact ih

theorem root?_map (w : List Token) :
    root? (w.map ρ.token) = (root? w).map (Prod.map id ρ.operator) := by
  rw [root?_eq_rootFrom, root?_eq_rootFrom]
  exact ρ.rootFrom_map 0 0 none w

theorem groupsFrom_map (i depth start : Nat) (w : List Token) :
    groupsFrom i depth start (w.map ρ.token) = groupsFrom i depth start w := by
  induction w generalizing i depth start with
  | nil => rfl
  | cons t w ih =>
    rcases t with v | op | (_ | _) <;> simp only [List.map_cons, token, groupsFrom, ih]

theorem slice_map (w : List Token) (start stop : Nat) :
    slice (w.map ρ.token) start stop = (slice w start stop).map ρ.token := by
  simp only [slice, List.map_take, List.map_drop]

/-! ## The second pass -/

theorem ofToken_token (position : Nat) (t : Token) :
    Expr.ofToken position (ρ.token t) = ρ.result ρ.expr (Expr.ofToken position t) := by
  cases t with
  | operator op =>
    simp only [token, Expr.ofToken, isUnary_operator]
    split_ifs <;> rfl
  | _ => rfl

theorem apply_operator (op : Operator) (position : Nat) (first second : Option Expr) :
    Expr.apply (ρ.operator op) position (first.map ρ.expr) (second.map ρ.expr) =
      ρ.result ρ.expr (Expr.apply op position first second) := by
  rcases first with _ | a <;> rcases second with _ | b <;>
    simp only [Option.map_none, Option.map_some, Expr.apply, isUnary_operator] <;>
    split_ifs <;> rfl

theorem outcome_build_map (start : Nat) (w : List Token) :
    (Expr.build start (w.map ρ.token)).outcome =
      ρ.result (Option.map ρ.expr) (Expr.build start w).outcome := by
  induction start, w using Expr.window_induction with
  | enclosed start inner hu ih =>
    have hu' := ρ.unwrap?_map (enclose inner)
    rw [hu] at hu'
    rw [Expr.outcome_build_of_unwrap? hu', Expr.outcome_build_of_unwrap? hu]
    exact ih
  | nil start =>
    rw [List.map_nil, Expr.outcome_build_nil]
    rfl
  | singleton start t =>
    rw [List.map_singleton, Expr.outcome_build_singleton, Expr.outcome_build_singleton,
      ρ.ofToken_token]
    cases Expr.ofToken start t <;> rfl
  | split start l op r hu hr hl ih₁ ih₂ =>
    have hmap : (l ++ .operator op :: r).map ρ.token =
        l.map ρ.token ++ .operator (ρ.operator op) :: r.map ρ.token := List.map_append
    have hu' := ρ.unwrap?_map (l ++ .operator op :: r)
    have hr' := ρ.root?_map (l ++ .operator op :: r)
    rw [hu, hmap] at hu'
    rw [hr, hmap] at hr'
    have hl' : 1 < (l.map ρ.token ++ .operator (ρ.operator op) :: r.map ρ.token).length := by
      rwa [← hmap, List.length_map]
    rw [hmap, Expr.outcome_build_append_operator hu' (by simpa using hr') hl',
      Expr.outcome_build_append_operator hu hr hl, List.length_map, ih₁, ih₂]
    refine ρ.result_bind fun first => ρ.result_bind fun second => ?_
    rw [apply_operator]
    cases Expr.apply op (start + l.length) first second <;> rfl
  | groups start w hu hr hl ih =>
    have hu' := ρ.unwrap?_map w
    have hr' := ρ.root?_map w
    rw [hu] at hu'
    rw [hr] at hr'
    rw [Expr.outcome_build_groups hu' hr' (by rwa [List.length_map]),
      Expr.outcome_build_groups hu hr hl, Window.groups, groupsFrom_map, ← Window.groups]
    have hfaults : ((groups w).findSome? fun g =>
          (Expr.build (start + g.1) (slice (w.map ρ.token) g.1 g.2)).fault?) =
        ((groups w).findSome? fun g =>
          (Expr.build (start + g.1) (slice w g.1 g.2)).fault?).map ρ.fault := by
      refine findSome?_eq_map fun g hg => ?_
      rw [slice_map]
      exact Traced.fault?_eq_map (ih g hg)
    rw [hfaults]
    cases (groups w).findSome? _ <;> rfl

/-- **Renamed tokens are read as the renamed expression, or fail with the renamed fault.** -/
theorem parse_map (tokens : List Token) :
    Expr.parse (tokens.map ρ.token) = ρ.result ρ.expr (Expr.parse tokens) := by
  unfold Expr.parse Expr.read
  simp only [Traced.outcome_bind, Expr.buildAll, outcome_validate_map, outcome_build_map]
  refine ρ.result_bind fun _ => ρ.result_bind fun first => ?_
  cases first <;> rfl

/-- **Reading sees the kinds of tokens, the arities and the ranks of operators, and no more**:
renamed tokens are read as the renamed expression, or fail with the renamed fault. -/
theorem parse_seesKinds (tokens : List Token) :
    ((∃ e, Expr.parse (tokens.map ρ.token) = .ok e) ↔ ∃ e, Expr.parse tokens = .ok e) ∧
    (∀ e, Expr.parse tokens = .ok e → Expr.parse (tokens.map ρ.token) = .ok (ρ.expr e)) ∧
    ∀ fault, Expr.parse tokens = .error fault → ∃ fault',
      Expr.parse (tokens.map ρ.token) = .error fault' ∧ fault'.code = fault.code ∧
        fault'.position? = fault.position? ∧
        fault'.operator? = fault.operator?.map ρ.operator := by
  rw [ρ.parse_map]
  refine ⟨⟨?_, ?_⟩, fun e he => ?_, fun fault hf => ?_⟩
  · rintro ⟨e', he'⟩
    obtain ⟨e, he, -⟩ := ρ.result_eq_ok_iff.mp he'
    exact ⟨e, he⟩
  · rintro ⟨e, he⟩
    exact ⟨ρ.expr e, ρ.result_eq_ok_iff.mpr ⟨e, he, rfl⟩⟩
  · exact ρ.result_eq_ok_iff.mpr ⟨e, he, rfl⟩
  · exact ⟨ρ.fault fault, ρ.result_eq_error_iff.mpr ⟨fault, hf, rfl⟩, ρ.code_fault fault,
      ρ.position?_fault fault, ρ.operator?_fault fault⟩

/-- One matrix for every value, and the operators on matrices for those on scalars. -/
def ontoMatrices (m : RatMatrix) : Renaming where
  value _ := .matrix m
  operator
    | .scalarPlus => .matrixPlus
    | .scalarMinus => .matrixMinus
    | .scalarMultiply => .matrixMultiply
    | .scalarDivide => .scalarMatrixMultiply
    | .scalarPower => .matrixPower
    | .determinant => .inverse
    | op => op
  arity_operator op := by cases op <;> rfl
  strength_operator op := by cases op <;> rfl

/-- With a matrix `M` in place of both numbers, `1 + 2` is read as `M + M`, and `+ 2` fails as `+ M`
does. -/
theorem parse_seesKinds_of_sum :
    let n (i : Int) : Value := .scalar (.ofInt i)
    let m : RatMatrix := ⟨1, 1, .identity 1, .fraction, by decide, by decide⟩
    Expr.parse [.value (.matrix m), .operator .matrixPlus, .value (.matrix m)] =
        .ok (.binary .matrixPlus (.value (.matrix m)) (.value (.matrix m))) ∧
      (∃ fault, Expr.parse [.operator .scalarPlus, .value (n 2)] = .error fault) ∧
      ∃ fault, Expr.parse [.operator .matrixPlus, .value (.matrix m)] = .error fault ∧
        fault.code = 105 ∧ fault.position? = some 0 := by
  intro n m
  have sum := Derives.binary_values .scalarPlus rfl (by decide) (n 1) (n 2)
  have hsum : Expr.parse [.value (n 1), .operator .scalarPlus, .value (n 2)] = .ok _ :=
    parse_eq_ok_iff.mpr ⟨sum.localFault?_eq_none, sum.outcome_build 0⟩
  have hfault : Expr.parse [.operator .scalarPlus, .value (n 2)] =
      .error (.missingOperands 0 none) := parse_eq_error_iff.mpr (.inl rfl)
  obtain ⟨-, hread, -⟩ := (ontoMatrices m).parse_seesKinds
    [.value (n 1), .operator .scalarPlus, .value (n 2)]
  obtain ⟨-, -, hfail⟩ := (ontoMatrices m).parse_seesKinds [.operator .scalarPlus, .value (n 2)]
  obtain ⟨fault, hparse, hcode, hposition, -⟩ := hfail _ hfault
  exact ⟨hread _ hsum, ⟨_, hfault⟩, fault, hparse, hcode, hposition⟩

end Renaming
end WorkedAlgebra
