import WorkedAlgebra.Expr.Parse

/-!
# Spans of a token list

The second pass by positions. A span is cut into spans of the same list, and its tokens are looked
up at their places in the whole list.
-/

namespace WorkedAlgebra

/-- The positions from `start` up to `stop`. -/
structure Span where
  start : Nat
  stop : Nat
deriving DecidableEq, Repr

namespace Span

open Window

def length (s : Span) : Nat := s.stop - s.start

def whole (tokens : List Token) : Span := ⟨0, tokens.length⟩

def window (tokens : List Token) (s : Span) : List Token := slice tokens s.start s.stop

/-! ## Brackets -/

/-- What stands inside the brackets around a span: the span itself, if no pair encloses it. -/
def inside (tokens : List Token) (s : Span) : Span :=
  if 2 ≤ s.length ∧ tokens[s.start]? = some (.bracket .opening) ∧
      tokens[s.stop - 1]? = some (.bracket .closing) ∧
      ¬ closesWithin 1 (slice tokens (s.start + 1) (s.stop - 1)) then
    ⟨s.start + 1, s.stop - 1⟩
  else s

theorem inside_eq_or (tokens : List Token) (s : Span) :
    inside tokens s = s ∨ 2 ≤ s.length ∧ inside tokens s = ⟨s.start + 1, s.stop - 1⟩ := by
  unfold inside
  split
  · next h => exact .inr ⟨h.1, rfl⟩
  · exact .inl rfl

theorem length_inside_lt {tokens : List Token} {s : Span} (h : inside tokens s ≠ s) :
    (inside tokens s).length < s.length := by
  rcases inside_eq_or tokens s with heq | ⟨hl, heq⟩
  · exact absurd heq h
  · rw [heq]
    simp only [length] at hl ⊢
    omega

/-- The insides of the outermost pairs of brackets at given positions, inside so many open
brackets. -/
def groupsAt (tokens : List Token) (depth : Nat) (opened : Option Nat) : List Nat → List Span
  | [] => []
  | i :: is =>
    match tokens[i]? with
    | some (.bracket .opening) =>
      groupsAt tokens (depth + 1) (if depth = 0 then some i else opened) is
    | some (.bracket .closing) =>
      if depth = 0 then groupsAt tokens 0 opened is
      else if depth = 1 then
        (opened.map fun p => ⟨p + 1, i⟩).toList ++ groupsAt tokens 0 none is
      else groupsAt tokens (depth - 1) opened is
    | _ => groupsAt tokens depth opened is

/-- The insides of the outermost pairs of brackets in a span. -/
def groups (tokens : List Token) (s : Span) : List Span :=
  groupsAt tokens 0 none (List.range' s.start s.length)

theorem bounds_of_mem_groupsAt {tokens : List Token} {depth a b : Nat} {opened : Option Nat}
    {is : List Nat} {g : Span} (h : g ∈ groupsAt tokens depth opened is)
    (his : ∀ i ∈ is, a ≤ i ∧ i < b) (hopened : ∀ p ∈ opened, a ≤ p) :
    a < g.start ∧ a ≤ g.stop ∧ g.stop < b := by
  induction is generalizing depth opened with
  | nil => simp [groupsAt] at h
  | cons i is ih =>
    have hi := his i List.mem_cons_self
    have hrest := fun j hj => his j (List.mem_cons_of_mem i hj)
    rw [groupsAt] at h
    split at h
    · refine ih h hrest ?_
      split
      · rintro _ ⟨⟩
        exact hi.1
      · exact hopened
    · split at h
      · exact ih h hrest hopened
      split at h
      · rcases List.mem_append.mp h with h | h
        · obtain ⟨p, hp, rfl⟩ := Option.map_eq_some_iff.mp (Option.mem_toList.mp h)
          exact ⟨Nat.lt_succ_of_le (hopened p hp), hi.1, hi.2⟩
        · exact ih h hrest (by simp)
      · exact ih h hrest hopened
    · exact ih h hrest hopened

theorem length_lt_of_mem_groups {tokens : List Token} {s g : Span} (h : g ∈ groups tokens s) :
    g.length < s.length := by
  have hbounds := bounds_of_mem_groupsAt (a := s.start) (b := s.stop) h
    (fun i hi => by
      have := List.mem_range'_1.mp hi
      simp only [length] at this
      omega)
    (by simp)
  simp only [length]
  omega

/-! ## The second pass -/

theorem lt_length_of_root? {tokens : List Token} {s : Span} {i : Nat} {op : Operator}
    (h : root? (s.window tokens) = some (i, op)) : i < s.length := by
  have hi := lt_of_root? h
  simp only [window, slice, List.length_drop, List.length_take, length] at hi ⊢
  omega

theorem length_before_lt {s : Span} {i : Nat} (h : i < s.length) :
    length ⟨s.start, s.start + i⟩ < s.length := by
  simp only [length] at h ⊢
  omega

theorem length_after_lt {s : Span} {i : Nat} (h : i < s.length) :
    length ⟨s.start + i + 1, s.stop⟩ < s.length := by
  simp only [length] at h ⊢
  omega

/-- One call of the second pass on a span, whose further calls are made by `call` and whose own
faults are named by `fault`. -/
def step {ε : Type} (tokens : List Token) (fault : ParseFault → ε) (s : Span)
    (call : (t : Span) → t.length < s.length → Traced ε (Option Expr)) :
    Traced ε (Option Expr) :=
  if hinside : inside tokens s = s then
    if s.length = 0 then pure none
    else if s.length = 1 then
      (Traced.ofExcept (tokens[s.start]?.mapM (Expr.ofToken s.start))).mapFault fault
    else
      match hroot : root? (s.window tokens) with
      | some (i, op) => do
        .emit (.split s.start s.stop op (s.start + i))
        let first ← call ⟨s.start, s.start + i⟩ (length_before_lt (lt_length_of_root? hroot))
        let second ← call ⟨s.start + i + 1, s.stop⟩ (length_after_lt (lt_length_of_root? hroot))
        some <$> (Traced.ofExcept (Expr.apply op (s.start + i) first second)).mapFault fault
      | none => do
        (groups tokens s).attach.forM fun g =>
          discard (call g.1 (length_lt_of_mem_groups g.2))
        .fail (fault (.adjacentOperands s.start))
  else do
    .emit (.unwrapped s.start (s.stop - 1))
    call (inside tokens s) (length_inside_lt hinside)

def build (tokens : List Token) (s : Span) : Traced ParseFault (Option Expr) :=
  step tokens id s fun t _ => build tokens t
termination_by s.length

/-- The expression of a span with **room for so many calls at one time**: a call that finds no room
left ends the whole pass with the fault `none`. -/
def buildWithin (tokens : List Token) : Nat → Span → Traced (Option ParseFault) (Option Expr)
  | 0, _ => .fail none
  | room + 1, s => step tokens some s fun t _ => buildWithin tokens room t

end Span
end WorkedAlgebra
