import WorkedAlgebra.Token

/-!
# Windows of tokens

How a list of tokens is cut up before its parts are read: which brackets enclose it, which
operator is applied last, and which groups stand in it.
-/

namespace WorkedAlgebra.Window

/-- The tokens from position `start` up to position `stop`. -/
def slice (w : List Token) (start stop : Nat) : List Token :=
  (w.take stop).drop start

/-! ## Enclosing brackets -/

/-- Whether so many open brackets are all closed somewhere in a list. -/
def closesWithin : Nat → List Token → Bool
  | 0, _ => true
  | _, [] => false
  | n + 1, .bracket .opening :: w => closesWithin (n + 2) w
  | n + 1, .bracket .closing :: w => closesWithin n w
  | n + 1, _ :: w => closesWithin (n + 1) w

/-- The inside of a window between brackets of which the first is not closed before the last. -/
def unwrap? : List Token → Option (List Token)
  | .bracket .opening :: w =>
    if w.getLast? = some (.bracket .closing) ∧ ¬ closesWithin 1 w.dropLast then some w.dropLast
    else none
  | _ => none

def unwrap (w : List Token) : List Token :=
  (unwrap? w).getD w

theorem length_of_unwrap? {w inner : List Token} (h : unwrap? w = some inner) :
    inner.length + 2 = w.length := by
  unfold unwrap? at h
  split at h
  · next rest =>
    split at h
    · next hc =>
      obtain rfl := Option.some.inj h
      have : rest ≠ [] := by rintro rfl; simp at hc
      have := List.length_pos_iff.mpr this
      simp only [List.length_dropLast, List.length_cons]
      omega
    · exact absurd h (by simp)
  · exact absurd h (by simp)

/-! ## The operator applied last -/

/-- A search for the operator applied last: the candidate, and a flag set when one that takes a
single operand is chosen. -/
structure Search where
  candidate : Option (Nat × Operator)
  unaryChosen : Bool

namespace Search

/-- The search after one more operator outside brackets. -/
def meet (s : Search) (p : Nat × Operator) : Search :=
  if s.candidate.any fun c => c.2.strength < p.2.strength then s
  else if p.2.isUnary then ⟨if s.unaryChosen then s.candidate else some p, true⟩
  else ⟨some p, false⟩

/-- The search from position `i` on. A closing bracket too many is passed over. -/
def run (i depth : Nat) (s : Search) : List Token → Search
  | [] => s
  | .bracket .opening :: w => run (i + 1) (depth + 1) s w
  | .bracket .closing :: w => run (i + 1) (depth - 1) s w
  | .value _ :: w => run (i + 1) depth s w
  | .operator op :: w => run (i + 1) depth (if depth = 0 then s.meet (i, op) else s) w

end Search

/-- The loosest operator outside all brackets, which is applied last, with its position. -/
def root? (w : List Token) : Option (Nat × Operator) :=
  (Search.run 0 0 ⟨none, false⟩ w).candidate

/-- Whether a later operator replaces the candidate: it does if it binds no stronger, but of several
operators with one operand the first stays. -/
def replaces (op candidate : Operator) : Bool :=
  op.strength ≤ candidate.strength && !(op.isUnary && candidate.isUnary)

/-- The search with a candidate alone, whose arity tells what the flag says. -/
def rootFrom (i depth : Nat) (candidate : Option (Nat × Operator)) :
    List Token → Option (Nat × Operator)
  | [] => candidate
  | .bracket .opening :: w => rootFrom (i + 1) (depth + 1) candidate w
  | .bracket .closing :: w => rootFrom (i + 1) (depth - 1) candidate w
  | .value _ :: w => rootFrom (i + 1) depth candidate w
  | .operator op :: w =>
    if depth = 0 ∧ candidate.all fun c => replaces op c.2 then
      rootFrom (i + 1) depth (some (i, op)) w
    else rootFrom (i + 1) depth candidate w

/-- The search with a given candidate and the flag that goes with it. -/
def Search.ofCandidate (candidate : Option (Nat × Operator)) : Search :=
  ⟨candidate, candidate.any fun c => c.2.isUnary⟩

theorem Search.meet_ofCandidate (candidate : Option (Nat × Operator)) (p : Nat × Operator) :
    (ofCandidate candidate).meet p =
      ofCandidate (if candidate.all fun c => replaces p.2 c.2 then some p else candidate) := by
  cases candidate with
  | none => cases h : p.2.isUnary <;> simp [meet, ofCandidate, h]
  | some c =>
    by_cases hlt : c.2.strength < p.2.strength
    · have hle : ¬ p.2.strength ≤ c.2.strength := by omega
      simp [meet, ofCandidate, replaces, hlt, hle]
    · have hle : p.2.strength ≤ c.2.strength := by omega
      cases h : p.2.isUnary <;> cases h' : c.2.isUnary <;>
        simp [meet, ofCandidate, replaces, hlt, hle, h, h']

/-- **The flag is what the candidate tells**, all along the search. -/
theorem Search.run_ofCandidate (i depth : Nat) (candidate : Option (Nat × Operator))
    (w : List Token) : run i depth (ofCandidate candidate) w =
      ofCandidate (rootFrom i depth candidate w) := by
  fun_induction rootFrom i depth candidate w with
  | case1 => rfl
  | case2 i depth candidate w ih | case3 i depth candidate w ih | case4 i depth candidate _ w ih =>
    exact ih
  | case5 i depth candidate op w h ih =>
    rw [run, if_pos h.1, meet_ofCandidate, if_pos h.2, ih]
  | case6 i depth candidate op w h ih =>
    rw [run, ← ih]
    by_cases hd : depth = 0
    · rw [if_pos hd, meet_ofCandidate, if_neg fun hc => h ⟨hd, hc⟩]
    · rw [if_neg hd]

theorem root?_eq_rootFrom (w : List Token) : root? w = rootFrom 0 0 none w :=
  congrArg Search.candidate (Search.run_ofCandidate 0 0 none w)

theorem rootFrom_eq_some {i depth : Nat} {candidate : Option (Nat × Operator)} {w : List Token}
    {p : Nat} {op : Operator} (h : rootFrom i depth candidate w = some (p, op)) :
    candidate = some (p, op) ∨ i ≤ p ∧ w[p - i]? = some (.operator op) := by
  fun_induction rootFrom i depth candidate w with
  | case1 => exact .inl h
  | case2 i depth candidate w ih | case3 i depth candidate w ih | case4 i depth candidate _ w ih =>
    rcases ih h with h | ⟨h₁, h₂⟩
    · exact .inl h
    · exact .inr ⟨by omega, by rw [show p - i = p - (i + 1) + 1 by omega]; simpa using h₂⟩
  | case5 i depth candidate q w _ ih =>
    rcases ih h with h | ⟨h₁, h₂⟩
    · simp only [Option.some.injEq, Prod.mk.injEq] at h
      exact .inr ⟨by omega, by simp [h]⟩
    · exact .inr ⟨by omega, by rw [show p - i = p - (i + 1) + 1 by omega]; simpa using h₂⟩
  | case6 i depth candidate q w _ ih =>
    rcases ih h with h | ⟨h₁, h₂⟩
    · exact .inl h
    · exact .inr ⟨by omega, by rw [show p - i = p - (i + 1) + 1 by omega]; simpa using h₂⟩

theorem getElem?_of_root? {w : List Token} {p : Nat} {op : Operator}
    (h : root? w = some (p, op)) : w[p]? = some (.operator op) := by
  rw [root?_eq_rootFrom] at h
  rcases rootFrom_eq_some h with h | ⟨_, h⟩
  · exact absurd h (by simp)
  · simpa using h

theorem lt_of_root? {w : List Token} {p : Nat} {op : Operator} (h : root? w = some (p, op)) :
    p < w.length :=
  (List.getElem?_eq_some_iff.mp (getElem?_of_root? h)).1

/-! ## Groups -/

/-- The insides of the outermost pairs of brackets, from position `i` on and inside so many open
brackets, the outermost of which stands before position `start`. -/
def groupsFrom (i depth start : Nat) : List Token → List (Nat × Nat)
  | [] => []
  | .bracket .opening :: w =>
    groupsFrom (i + 1) (depth + 1) (if depth = 0 then i + 1 else start) w
  | .bracket .closing :: w =>
    if depth = 1 then (start, i) :: groupsFrom (i + 1) 0 start w
    else groupsFrom (i + 1) (depth - 1) start w
  | _ :: w => groupsFrom (i + 1) depth start w

/-- The insides of the outermost pairs of brackets, each up to its closing bracket. -/
def groups (w : List Token) : List (Nat × Nat) :=
  groupsFrom 0 0 0 w

theorem lt_of_mem_groupsFrom {i depth start : Nat} {w : List Token} {g : Nat × Nat}
    (h : g ∈ groupsFrom i depth start w) : g.2 < i + w.length := by
  fun_induction groupsFrom i depth start w with
  | case1 => simp at h
  | case2 i depth start w ih =>
    have := ih h
    simp only [List.length_cons]
    omega
  | case3 i start w ih =>
    simp only [List.mem_cons, List.length_cons] at h ⊢
    rcases h with rfl | h
    · simp only; omega
    · have := ih h; omega
  | case4 i depth start w _ ih | case5 i depth start _ w _ _ ih =>
    have := ih h
    simp only [List.length_cons]
    omega

theorem length_slice_lt_of_mem_groups {w : List Token} {g : Nat × Nat} (h : g ∈ groups w) :
    (slice w g.1 g.2).length < w.length := by
  have := lt_of_mem_groupsFrom h
  simp only [slice, List.length_drop, List.length_take]
  omega

end WorkedAlgebra.Window
