import WorkedAlgebra.Proofs.Number.Grammar

/-!
# Formulas

Arithmetic written out in characters, with the rational number that it denotes by the usual rules. A
power binds tightest, products and quotients bind tighter than sums and differences, and both kinds
are read from the left. A minus sign may lead a sum.

* **`Formula.Denotes.value?_eq`**, **`Formula.Denotes.unique`**: a formula is read as the one number
  that it denotes.
-/

namespace WorkedAlgebra.Formula

/-! ## What formulas denote -/

inductive Part
  | sum
  | product
  | power
  | factor
deriving DecidableEq, Repr

/-- **What a part of a formula denotes.** Blanks are allowed around every part. -/
inductive Denotes : Part → List Char → ℚ → Prop
  | numeral {cs : List Char} {n : ℕ} (h : Numeral.Digits cs n) : Denotes .factor cs n
  | brackets {cs : List Char} {x : ℚ} (h : Denotes .sum cs x) :
    Denotes .factor ('(' :: (cs ++ [')'])) x
  | factor {cs : List Char} {x : ℚ} (h : Denotes .factor cs x) : Denotes .power cs x
  | power {cs es : List Char} {x : ℚ} {n : ℕ} (h : Denotes .factor cs x)
    (he : Numeral.Digits es n) : Denotes .power (cs ++ '^' :: es) (x ^ n)
  | single {cs : List Char} {x : ℚ} (h : Denotes .power cs x) : Denotes .product cs x
  | times {cs ds : List Char} {x y : ℚ} (h : Denotes .product cs x) (hd : Denotes .power ds y) :
    Denotes .product (cs ++ '*' :: ds) (x * y)
  | quotient {cs ds : List Char} {x y : ℚ} (h : Denotes .product cs x) (hd : Denotes .power ds y)
    (hy : y ≠ 0) : Denotes .product (cs ++ '/' :: ds) (x / y)
  | term {cs : List Char} {x : ℚ} (h : Denotes .product cs x) : Denotes .sum cs x
  | negative {cs : List Char} {x : ℚ} (h : Denotes .product cs x) : Denotes .sum ('-' :: cs) (-x)
  | plus {cs ds : List Char} {x y : ℚ} (h : Denotes .sum cs x) (hd : Denotes .product ds y) :
    Denotes .sum (cs ++ '+' :: ds) (x + y)
  | minus {cs ds : List Char} {x y : ℚ} (h : Denotes .sum cs x) (hd : Denotes .product ds y) :
    Denotes .sum (cs ++ '-' :: ds) (x - y)
  | blankBefore {p : Part} {cs : List Char} {x : ℚ} (h : Denotes p cs x) : Denotes p (' ' :: cs) x
  | blankAfter {p : Part} {cs : List Char} {x : ℚ} (h : Denotes p cs x) : Denotes p (cs ++ [' ']) x

def IsSymbol (c : Char) : Prop :=
  c.isDigit ∨ c ∈ ['_', ' ', '(', ')', '^', '*', '/', '+', '-']

instance : DecidablePred IsSymbol := fun _ => inferInstanceAs (Decidable (_ ∨ _))

theorem isSymbol_of_digits {cs : List Char} {n : ℕ} (h : Numeral.Digits cs n) :
    ∀ c ∈ cs, IsSymbol c := fun _ hc =>
  (h.mem hc).imp id fun h => by simp [h]

theorem Denotes.isSymbol {p : Part} {cs : List Char} {x : ℚ} (h : Denotes p cs x) :
    ∀ c ∈ cs, IsSymbol c := by
  have hmid : ∀ {l r : List Char} {c : Char}, IsSymbol c → (∀ c ∈ l, IsSymbol c) →
      (∀ c ∈ r, IsSymbol c) → ∀ d ∈ l ++ c :: r, IsSymbol d := fun hc hl hr => by
    simpa only [List.forall_mem_append, List.forall_mem_cons] using ⟨hl, hc, hr⟩
  have hnil : ∀ c ∈ ([] : List Char), IsSymbol c := by simp
  induction h with
  | numeral h => exact isSymbol_of_digits h
  | brackets _ ih => exact hmid (l := []) (by decide) hnil (hmid (by decide) ih hnil)
  | power _ he ih => exact hmid (by decide) ih (isSymbol_of_digits he)
  | factor _ ih | single _ ih | term _ ih => exact ih
  | times _ _ ih ihd | quotient _ _ _ ih ihd | plus _ _ ih ihd | minus _ _ ih ihd =>
    exact hmid (by decide) ih ihd
  | negative _ ih | blankBefore _ ih => exact hmid (l := []) (by decide) hnil ih
  | blankAfter _ ih => exact hmid (by decide) ih hnil

/-! ## Reading from left to right -/

/-- What was read of a sum before a number: a total, and a factor to multiply or to divide. -/
structure Frame where
  total : ℚ
  factor : ℚ
  divides : Bool

namespace Frame

/-- The frame before a sum. -/
def fresh : Frame := ⟨0, 1, false⟩

/-- The product that a number completes. -/
def product (f : Frame) (x : ℚ) : ℚ :=
  if f.divides then f.factor / x else f.factor * x

theorem product_eq_mul {f : Frame} (h : f.divides = false) (x : ℚ) :
    f.product x = f.factor * x := by
  rw [product, h]
  rfl

/-- The sum that a number completes. -/
def sum (f : Frame) (x : ℚ) : ℚ :=
  f.total + f.product x

end Frame

/-- What the next character meets. -/
inductive Stage
  /-- A number has to follow; at the start of a sum it may have a minus sign. -/
  | operand (start : Bool)
  | digits (n : ℕ)
  | value (x : ℚ)
  | hat (x : ℚ)
  | exponent (x : ℚ) (n : ℕ)

/-- The number that was read, if an operator may follow. -/
def Stage.value? : Stage → Option ℚ
  | digits n => some n
  | value x => some x
  | exponent x n => some (x ^ n)
  | operand _ | hat _ => none

/-- The frame of the sum that is being read, and those of the sums around it. -/
structure State where
  stage : Stage
  frame : Frame
  outer : List Frame

namespace State

/-- A digit begins or continues a numeral. -/
def digit (s : State) (d : ℕ) : Option State :=
  match s.stage with
  | .operand _ => some { s with stage := .digits d }
  | .digits n => some { s with stage := .digits (10 * n + d) }
  | .hat x => some { s with stage := .exponent x d }
  | .exponent x n => some { s with stage := .exponent x (10 * n + d) }
  | .value _ => none

/-- A blank ends a numeral. -/
def blank (s : State) : Option State :=
  match s.stage with
  | .operand _ => some s
  | stage => stage.value?.map fun x => { s with stage := .value x }

/-- A bracket is opened in place of a number. -/
def enter (s : State) : Option State :=
  match s.stage with
  | .operand _ => some ⟨.operand true, .fresh, s.frame :: s.outer⟩
  | _ => none

/-- A bracket is closed, and what it holds is the number in the sum around it. -/
def leave (s : State) : Option State :=
  match s.stage.value?, s.outer with
  | some x, f :: outer => some ⟨.value (s.frame.sum x), f, outer⟩
  | _, _ => none

/-- An operator is put after a number, with the frame that this leads to. -/
def next (s : State) (frame : ℚ → Frame) : Option State :=
  s.stage.value?.map fun x => { s with stage := .operand false, frame := frame x }

/-- A minus sign at the start of a sum, or between two of its products. -/
def dash (s : State) : Option State :=
  match s.stage with
  | .operand true => some { s with stage := .operand false, frame := ⟨0, -1, false⟩ }
  | _ => s.next fun x => ⟨s.frame.sum x, -1, false⟩

def step (s : State) (c : Char) : Option State :=
  if c.isDigit then s.digit (Numeral.digit c)
  else match c with
    | '_' => some s
    | ' ' => s.blank
    | '(' => s.enter
    | ')' => s.leave
    | '^' => s.stage.value?.map fun x => { s with stage := .hat x }
    | '*' => s.next fun x => ⟨s.frame.total, s.frame.product x, false⟩
    | '/' => s.next fun x => ⟨s.frame.total, s.frame.product x, true⟩
    | '+' => s.next fun x => ⟨s.frame.sum x, 1, false⟩
    | '-' => s.dash
    | _ => none

def scan (s : State) (cs : List Char) : Option State :=
  cs.foldlM step s

def start : State := ⟨.operand true, .fresh, []⟩

/-- The number that a formula comes to when it ends, all brackets being closed. -/
def result? (s : State) : Option ℚ :=
  match s.outer with
  | [] => s.stage.value?.map s.frame.sum
  | _ => none

section Scan

variable {s t t' : State} {c : Char}

theorem scan_cons (h : s.step c = some t) (cs : List Char) : s.scan (c :: cs) = t.scan cs := by
  rw [scan, List.foldlM_cons, h]
  rfl

theorem scan_append {cs : List Char} (h : s.scan cs = some t) (ds : List Char) :
    s.scan (cs ++ ds) = t.scan ds := by
  rw [scan, List.foldlM_append, ← scan, h]
  rfl

theorem scan_append_cons {cs : List Char} (h : s.scan cs = some t) (hc : t.step c = some t')
    (ds : List Char) : s.scan (cs ++ c :: ds) = t'.scan ds := by
  rw [scan_append h, scan_cons hc]

theorem step_digit (h : c.isDigit) (s : State) : s.step c = s.digit (Numeral.digit c) :=
  if_pos h

end Scan

section

variable {stage : Stage} {frame : Frame} {outer : List Frame} {x : ℚ}

theorem next_eq (h : stage.value? = some x) (next : ℚ → Frame) :
    (⟨stage, frame, outer⟩ : State).next next = some ⟨.operand false, next x, outer⟩ := by
  rw [State.next, h]
  rfl

theorem step_blank (h : stage.value? = some x) :
    (⟨stage, frame, outer⟩ : State).step ' ' = some ⟨.value x, frame, outer⟩ := by
  change (⟨stage, frame, outer⟩ : State).blank = _
  cases stage <;> cases h <;> rfl

theorem step_close (h : stage.value? = some x) (f : Frame) :
    (⟨stage, frame, f :: outer⟩ : State).step ')' = some ⟨.value (frame.sum x), f, outer⟩ := by
  change (⟨stage, frame, f :: outer⟩ : State).leave = _
  rw [leave, h]

theorem step_hat (h : stage.value? = some x) :
    (⟨stage, frame, outer⟩ : State).step '^' = some ⟨.hat x, frame, outer⟩ := by
  change stage.value?.map _ = _
  rw [h]
  rfl

theorem step_times (h : stage.value? = some x) :
    (⟨stage, frame, outer⟩ : State).step '*' =
      some ⟨.operand false, ⟨frame.total, frame.product x, false⟩, outer⟩ :=
  next_eq h _

theorem step_over (h : stage.value? = some x) :
    (⟨stage, frame, outer⟩ : State).step '/' =
      some ⟨.operand false, ⟨frame.total, frame.product x, true⟩, outer⟩ :=
  next_eq h _

theorem step_plus (h : stage.value? = some x) :
    (⟨stage, frame, outer⟩ : State).step '+' =
      some ⟨.operand false, ⟨frame.sum x, 1, false⟩, outer⟩ :=
  next_eq h _

theorem step_minus (h : stage.value? = some x) :
    (⟨stage, frame, outer⟩ : State).step '-' =
      some ⟨.operand false, ⟨frame.sum x, -1, false⟩, outer⟩ := by
  change (⟨stage, frame, outer⟩ : State).dash = _
  cases stage <;> cases h <;> rfl

end

theorem scan_digits {s : State} {cs : List Char} {n : ℕ} (stage : ℕ → Stage)
    (first : ∀ d, s.digit d = some { s with stage := stage d })
    (next : ∀ n d, ({ s with stage := stage n } : State).digit d =
      some { s with stage := stage (10 * n + d) }) (h : Numeral.Digits cs n) :
    s.scan cs = some { s with stage := stage n } := by
  induction h with
  | first hc => exact scan_cons ((step_digit hc s).trans (first _)) []
  | next _ hc ih => exact scan_append_cons ih ((step_digit hc _).trans (next _ _)) []
  | underscore _ ih => exact scan_append_cons ih rfl []

end State

/-! ## What is read of a part -/

/-- Where a part may stand: a sum at the start of a bracket, and a product not after a slash. -/
def Part.Fits : Part → Bool → Frame → Prop
  | .sum, start, f => start = true ∧ f = .fresh
  | .product, _, f => f.divides = false
  | .power, _, _ | .factor, _, _ => True

/-- How a part that denotes `x` moves on from frame `f`: to frame `g`, with `y` read last. -/
def Part.Leaves (f : Frame) (x : ℚ) (g : Frame) (y : ℚ) : Part → Prop
  | .sum => g.sum y = x
  | .product => g.total = f.total ∧ g.product y = f.factor * x
  | .power | .factor => g = f ∧ y = x

open State in
/-- **What is read of a part.** By induction on the part: what it denotes is combined with the frame
that stood before it, whatever the frames around that. -/
theorem Denotes.scan {p : Part} {cs : List Char} {x : ℚ} (h : Denotes p cs x) {b : Bool}
    {f : Frame} (fits : p.Fits b f) (outer : List Frame) :
    ∃ stage g y, State.scan ⟨.operand b, f, outer⟩ cs = some ⟨stage, g, outer⟩ ∧
      stage.value? = some y ∧ p.Leaves f x g y := by
  induction h generalizing b f outer with
  | @numeral cs n h =>
    exact ⟨.digits n, f, n, scan_digits .digits (fun _ => rfl) (fun _ _ => rfl) h, rfl, rfl, rfl⟩
  | @brackets cs x h ih =>
    obtain ⟨stage, g, y, hscan, hvalue, hsum⟩ := ih ⟨rfl, rfl⟩ (f :: outer)
    refine ⟨.value (g.sum y), f, _, ?_, rfl, rfl, hsum⟩
    rw [scan_cons (t := ⟨.operand true, .fresh, f :: outer⟩) rfl]
    exact scan_append_cons hscan (step_close hvalue f) []
  | factor h ih => exact ih trivial outer
  | @power cs es x n h he ih =>
    obtain ⟨stage, g, y, hscan, hvalue, rfl, rfl⟩ := ih trivial outer
    refine ⟨.exponent y n, _, _, ?_, rfl, rfl, rfl⟩
    rw [scan_append_cons hscan (step_hat hvalue)]
    exact scan_digits (.exponent y) (fun _ => rfl) (fun _ _ => rfl) he
  | single h ih =>
    obtain ⟨stage, g, y, hscan, hvalue, hg, hy⟩ := ih trivial outer
    refine ⟨stage, g, y, hscan, hvalue, congrArg Frame.total hg, ?_⟩
    rw [hg, hy]
    exact Frame.product_eq_mul fits _
  | @times cs ds x y h hd ih ihd =>
    obtain ⟨stage, g, z, hscan, hvalue, htotal, hproduct⟩ := ih fits outer
    obtain ⟨stage', g', z', hscan', hvalue', hg, rfl⟩ :=
      ihd (b := false) (f := ⟨g.total, g.product z, false⟩) trivial outer
    refine ⟨stage', g', z', ?_, hvalue', (congrArg Frame.total hg).trans htotal, ?_⟩
    · rw [scan_append_cons hscan (step_times hvalue)]
      exact hscan'
    · rw [hg]
      change g.product z * z' = _
      rw [hproduct, mul_assoc]
  | @quotient cs ds x y h hd hy ih ihd =>
    obtain ⟨stage, g, z, hscan, hvalue, htotal, hproduct⟩ := ih fits outer
    obtain ⟨stage', g', z', hscan', hvalue', hg, rfl⟩ :=
      ihd (b := false) (f := ⟨g.total, g.product z, true⟩) trivial outer
    refine ⟨stage', g', z', ?_, hvalue', (congrArg Frame.total hg).trans htotal, ?_⟩
    · rw [scan_append_cons hscan (step_over hvalue)]
      exact hscan'
    · rw [hg]
      change g.product z / z' = _
      rw [hproduct, mul_div_assoc]
  | term h ih =>
    obtain ⟨-, rfl⟩ := fits
    obtain ⟨stage, g, y, hscan, hvalue, htotal, hproduct⟩ := ih (b := b) (f := .fresh) rfl outer
    refine ⟨stage, g, y, hscan, hvalue, ?_⟩
    rw [Part.Leaves, Frame.sum, htotal, hproduct]
    simp [Frame.fresh]
  | @negative cs x h ih =>
    obtain ⟨rfl, rfl⟩ := fits
    obtain ⟨stage, g, y, hscan, hvalue, htotal, hproduct⟩ :=
      ih (b := false) (f := ⟨0, -1, false⟩) rfl outer
    refine ⟨stage, g, y, hscan, hvalue, ?_⟩
    rw [Part.Leaves, Frame.sum, htotal, hproduct, neg_one_mul, zero_add]
  | @plus cs ds x y h hd ih ihd =>
    obtain ⟨stage, g, z, hscan, hvalue, hsum⟩ := ih fits outer
    obtain ⟨stage', g', z', hscan', hvalue', htotal, hproduct⟩ :=
      ihd (b := false) (f := ⟨g.sum z, 1, false⟩) rfl outer
    refine ⟨stage', g', z', ?_, hvalue', ?_⟩
    · rw [scan_append_cons hscan (step_plus hvalue)]
      exact hscan'
    · rw [Part.Leaves, Frame.sum, htotal, hproduct, hsum, one_mul]
  | @minus cs ds x y h hd ih ihd =>
    obtain ⟨stage, g, z, hscan, hvalue, hsum⟩ := ih fits outer
    obtain ⟨stage', g', z', hscan', hvalue', htotal, hproduct⟩ :=
      ihd (b := false) (f := ⟨g.sum z, -1, false⟩) rfl outer
    refine ⟨stage', g', z', ?_, hvalue', ?_⟩
    · rw [scan_append_cons hscan (step_minus hvalue)]
      exact hscan'
    · rw [Part.Leaves, Frame.sum, htotal, hproduct, hsum, neg_one_mul, sub_eq_add_neg]
  | blankBefore h ih => exact ih fits outer
  | @blankAfter p cs x h ih =>
    obtain ⟨stage, g, y, hscan, hvalue, hleaves⟩ := ih fits outer
    exact ⟨.value y, g, y, scan_append_cons hscan (step_blank hvalue) [], rfl, hleaves⟩

/-- The number that a text comes to as a formula; some texts that are none come to one, too. -/
def value? (cs : List Char) : Option ℚ :=
  (State.start.scan cs).bind State.result?

/-- **A formula is read as what it denotes.** -/
theorem Denotes.value?_eq {cs : List Char} {x : ℚ} (h : Denotes .sum cs x) :
    value? cs = some x := by
  obtain ⟨stage, g, y, hscan, hvalue, hsum⟩ := h.scan (b := true) ⟨rfl, rfl⟩ []
  rw [value?, State.start, hscan]
  change stage.value?.map g.sum = some x
  rw [hvalue]
  exact congrArg some hsum

example : value? "1 - 6 / 2*(-3 + 1)^2".toList = some (-11) := by decide +kernel

/-- **A formula denotes at most one number.** -/
theorem Denotes.unique {cs : List Char} {x y : ℚ} (hx : Denotes .sum cs x)
    (hy : Denotes .sum cs y) : x = y :=
  Option.some.inj (hx.value?_eq.symm.trans hy.value?_eq)

theorem Denotes.iff_eq {cs : List Char} {x : ℚ} (h : Denotes .sum cs x) (y : ℚ) :
    Denotes .sum cs y ↔ y = x :=
  ⟨fun hy => hy.unique h, fun hy => hy ▸ h⟩

/-! ## Formulas put together -/

section

variable {cs ds : List Char} {x y : ℚ}

theorem Denotes.blanksBefore {p : Part} (h : Denotes p cs x) (k : ℕ) :
    Denotes p (List.replicate k ' ' ++ cs) x := by
  induction k with
  | zero => exact h
  | succ k ih => exact ih.blankBefore

/-- **Products multiply.** The second one may be any product: read from the left, a product of
products comes to the same. -/
theorem Denotes.mul (h : Denotes .product cs x) (hd : Denotes .product ds y) :
    Denotes .product (cs ++ '*' :: ds) (x * y) := by
  -- blanks before the second product are put before its first power
  suffices key : ∀ k, Denotes .product (cs ++ '*' :: (List.replicate k ' ' ++ ds)) (x * y) from
    key 0
  generalize hp : Part.product = p at hd
  induction hd with
  | single hd => exact fun k => h.times (hd.blanksBefore k)
  | times _ he ih =>
    intro k
    have htimes := (ih hp k).times he
    rw [mul_assoc] at htimes
    simpa using htimes
  | quotient _ he hne ih =>
    intro k
    have hover := (ih hp k).quotient he hne
    rw [mul_div_assoc] at hover
    simpa using hover
  | blankBefore _ ih => simpa [List.replicate_succ'] using fun k => ih hp (k + 1)
  | blankAfter _ ih => simpa using fun k => (ih hp k).blankAfter
  | _ => cases hp

end

section

variable {α : Type} {text : α → List Char} {value : α → ℚ}

theorem denotes_intercalate_times {items : List α} (hne : items ≠ [])
    (h : ∀ a ∈ items, Denotes .product (text a) (value a)) :
    Denotes .product ([' ', '*', ' '].intercalate (items.map text)) (items.map value).prod := by
  induction items with
  | nil => exact absurd rfl hne
  | cons a items ih =>
    have ha := h a List.mem_cons_self
    cases items with
    | nil => simpa [List.intercalate] using ha
    | cons b items =>
      have hrest := ih (List.cons_ne_nil b items) fun c hc => h c (List.mem_cons_of_mem a hc)
      have hmul := ha.blankAfter.mul hrest.blankBefore
      simpa [List.intercalate_cons_cons] using hmul

theorem Denotes.add_intercalate {cs : List Char} {x : ℚ} (hcs : Denotes .sum cs x) {a : α}
    {items : List α} (h : ∀ b ∈ a :: items, Denotes .product (text b) (value b)) :
    Denotes .sum (cs ++ '+' :: ' ' :: [' ', '+', ' '].intercalate ((a :: items).map text))
      (x + ((a :: items).map value).sum) := by
  induction items generalizing cs x a with
  | nil => simpa [List.intercalate] using hcs.plus (h a List.mem_cons_self).blankBefore
  | cons b items ih =>
    have hplus := (hcs.plus (h a List.mem_cons_self).blankBefore).blankAfter
    have hrest := ih hplus fun c hc => h c (List.mem_cons_of_mem a hc)
    simpa [List.intercalate_cons_cons, add_assoc] using hrest

theorem denotes_intercalate_plus {items : List α} (hne : items ≠ [])
    (h : ∀ a ∈ items, Denotes .product (text a) (value a)) :
    Denotes .sum ([' ', '+', ' '].intercalate (items.map text)) (items.map value).sum := by
  match items, hne with
  | [a], _ => simpa [List.intercalate] using (h a List.mem_cons_self).term
  | a :: b :: items, _ =>
    have hrest := (h a List.mem_cons_self).term.blankAfter.add_intercalate
      fun c hc => h c (List.mem_cons_of_mem a hc)
    simpa [List.intercalate_cons_cons] using hrest

end

end WorkedAlgebra.Formula
