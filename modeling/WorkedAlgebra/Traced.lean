import WorkedAlgebra.Solution

/-!
# Traced computations

A computation that reports what it does as it goes, and may fail. The events before a failure are
kept, and **events never influence an outcome** (`Traced.outcome_bind`).
-/

namespace WorkedAlgebra

/-- Something that a computation reports. -/
inductive Event
  | started (tokens : Nat)
  | validated (tokens : Nat)
  /-- The brackets at two positions were removed. -/
  | unwrapped (first last : Nat)
  /-- The tokens of a window are split at an operator. -/
  | split (start stop : Nat) (op : Operator) (position : Nat)
  | reduced (pivots swaps steps : Nat)
  | worked (solution : Solution)
deriving DecidableEq, Repr

namespace Event

def level : Event → String
  | unwrapped .. | reduced .. => "TRACE"
  | _ => "DEBUG"

/-- The wording of an event; `number` counts the operations up to and including it. -/
def message (number : Nat) : Event → String
  | started n => "computing " ++ n.repr ++ " tokens"
  | validated n => "validated " ++ n.repr ++ " tokens"
  | unwrapped first last => "stripped brackets at " ++ first.repr ++ " and " ++ last.repr
  | split start stop op position =>
    "root of tokens " ++ start.repr ++ ".." ++ stop.repr ++ " is " ++ op.name ++ " at " ++
      position.repr
  | reduced pivots swaps steps =>
    "row reduction finished: " ++ pivots.repr ++ " pivots, " ++ swaps.repr ++ " swaps, " ++
      steps.repr ++ " steps"
  | worked solution =>
    solution.operator.name ++ " #" ++ number.repr ++ ": [" ++
      ", ".intercalate (solution.inputs.map Value.text) ++ "] -> " ++ solution.answer.text

def isWorked : Event → Bool
  | worked _ => true
  | _ => false

end Event

/-- The lines of a log, when `done` operations came before. -/
def logLines (done : Nat) : List Event → List String
  | [] => []
  | e :: es =>
    let number := if e.isWorked then done + 1 else done
    (e.level ++ " " ++ e.message number) :: logLines number es

/-- A computation that reports events and ends with a result or a fault. -/
structure Traced (ε α : Type) where
  events : List Event
  outcome : Except ε α

namespace Traced

variable {ε ε' α β : Type}

/-- First one computation, then another that depends on its result. -/
def andThen (x : Traced ε α) (f : α → Traced ε β) : Traced ε β :=
  match x.outcome with
  | .ok a => ⟨x.events ++ (f a).events, (f a).outcome⟩
  | .error e => ⟨x.events, .error e⟩

instance : Monad (Traced ε) where
  pure a := ⟨[], .ok a⟩
  bind := andThen

def ofExcept (r : Except ε α) : Traced ε α := ⟨[], r⟩

def fail (e : ε) : Traced ε α := ⟨[], .error e⟩

def emit (e : Event) : Traced ε Unit := ⟨[e], .ok ()⟩

/-- The computation with its fault renamed. -/
def mapFault (f : ε → ε') (x : Traced ε α) : Traced ε' α :=
  ⟨x.events, x.outcome.mapError f⟩

@[simp] theorem outcome_pure (a : α) : (pure a : Traced ε α).outcome = .ok a := rfl

@[simp] theorem outcome_bind (x : Traced ε α) (f : α → Traced ε β) :
    (x >>= f).outcome = x.outcome >>= fun a => (f a).outcome := by
  obtain ⟨es, _ | a⟩ := x <;> rfl

theorem bind_eq_ok_iff {x : Except ε α} {f : α → Except ε β} {b : β} :
    x >>= f = .ok b ↔ ∃ a, x = .ok a ∧ f a = .ok b := by
  cases x with
  | error e => exact iff_of_false nofun fun ⟨_, h, _⟩ => nomatch h
  | ok a => exact ⟨fun h => ⟨a, rfl, h⟩, fun ⟨_, h, hb⟩ => by cases h; exact hb⟩

theorem bind_eq_error_iff {x : Except ε α} {f : α → Except ε β} {e : ε} :
    x >>= f = .error e ↔ x = .error e ∨ ∃ a, x = .ok a ∧ f a = .error e := by
  cases x with
  | error e' =>
    constructor
    · intro h
      exact .inl (congrArg Except.error (Except.error.inj h))
    · rintro (h | ⟨_, h, _⟩)
      · exact congrArg Except.error (Except.error.inj h)
      · cases h
  | ok a =>
    constructor
    · intro h
      exact .inr ⟨a, rfl, h⟩
    · rintro (h | ⟨_, h, hf⟩)
      · cases h
      · cases h
        exact hf

theorem map_eq_error_iff {x : Except ε α} {f : α → β} {e : ε} :
    f <$> x = .error e ↔ x = .error e := by
  cases x <;> simp [Functor.map, Except.map]

theorem map_eq_ok_iff {x : Except ε α} {f : α → β} {b : β} :
    f <$> x = .ok b ↔ ∃ a, x = .ok a ∧ f a = b := by
  cases x with
  | error e => exact iff_of_false nofun fun ⟨_, h, _⟩ => nomatch h
  | ok a => exact ⟨fun h => ⟨a, rfl, Except.ok.inj h⟩, fun ⟨_, h, hb⟩ => by cases h; exact hb ▸ rfl⟩

theorem outcome_bind_eq_ok_iff {x : Traced ε α} {f : α → Traced ε β} {b : β} :
    (x >>= f).outcome = .ok b ↔ ∃ a, x.outcome = .ok a ∧ (f a).outcome = .ok b := by
  rw [outcome_bind, bind_eq_ok_iff]

theorem outcome_bind_of_ok {x : Traced ε α} {a : α} (h : x.outcome = .ok a)
    (f : α → Traced ε β) : (x >>= f).outcome = (f a).outcome := by
  rw [outcome_bind, h]
  rfl

@[simp] theorem outcome_map (f : α → β) (x : Traced ε α) :
    (f <$> x).outcome = f <$> x.outcome := by
  obtain ⟨es, _ | a⟩ := x <;> rfl

@[simp] theorem outcome_ofExcept (r : Except ε α) : (ofExcept r).outcome = r := rfl

@[simp] theorem outcome_fail (e : ε) : (fail e : Traced ε α).outcome = .error e := rfl

@[simp] theorem outcome_emit (e : Event) : (emit e : Traced ε Unit).outcome = .ok () := rfl

@[simp] theorem outcome_mapFault (f : ε → ε') (x : Traced ε α) :
    (x.mapFault f).outcome = x.outcome.mapError f := rfl

instance : LawfulMonad (Traced ε) :=
  LawfulMonad.mk' (Traced ε)
    (fun ⟨es, r⟩ => by cases r <;> simp [Functor.map, andThen])
    (fun a f => by simp [bind, andThen, pure])
    (fun ⟨es, r⟩ f g => by
      cases r with
      | error e => rfl
      | ok a =>
        simp only [bind, andThen]
        cases (f a).outcome <;> simp)

/-! ## Renamed faults -/

theorem mapFault_id (x : Traced ε α) : x.mapFault id = x := by
  obtain ⟨es, _ | a⟩ := x <;> rfl

theorem mapFault_mapFault {ε'' : Type} (f : ε → ε') (g : ε' → ε'') (x : Traced ε α) :
    (x.mapFault f).mapFault g = x.mapFault (g ∘ f) := by
  obtain ⟨es, _ | a⟩ := x <;> rfl

theorem mapFault_bind (f : ε → ε') (x : Traced ε α) (k : α → Traced ε β) :
    (x >>= k).mapFault f = x.mapFault f >>= fun a => (k a).mapFault f := by
  obtain ⟨es, _ | a⟩ := x <;> rfl

theorem mapFault_map (f : ε → ε') (g : α → β) (x : Traced ε α) :
    (g <$> x).mapFault f = g <$> x.mapFault f := by
  obtain ⟨es, _ | a⟩ := x <;> rfl

theorem mapFault_discard (f : ε → ε') (x : Traced ε α) :
    (discard x).mapFault f = discard (x.mapFault f) := by
  obtain ⟨es, _ | a⟩ := x <;> rfl

theorem mapFault_forM {ι : Type} (f : ε → ε') (l : List ι) (k : ι → Traced ε PUnit) :
    (l.forM k).mapFault f = l.forM fun i => (k i).mapFault f := by
  induction l with
  | nil => rfl
  | cons i l ih =>
    rw [List.forM, mapFault_bind, ih]
    rfl

end Traced
end WorkedAlgebra
