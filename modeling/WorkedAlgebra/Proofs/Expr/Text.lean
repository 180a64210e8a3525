import WorkedAlgebra.Proofs.Evaluation.Modes
import WorkedAlgebra.Proofs.Number.Numeral
import WorkedAlgebra.Proofs.Value.Cells
import WorkedAlgebra.Proofs.Value.Entries

/-!
# The text of an expression

The values of an expression are written with the characters that separate them, but no two
expressions share a text, but for operators that share a symbol. The word at the start of a text
tells how it goes on, and each operand is told from what stands behind it.
-/

namespace WorkedAlgebra

/-! ## Words -/

def isStop (c : Char) : Bool :=
  c == ' ' || c == '(' || c == ')'

def word (cs : List Char) : List Char :=
  cs.takeWhile fun c => !isStop c

/-- What can stand behind a whole expression. -/
def Behind (r : List Char) : Prop :=
  ∀ c ∈ r.head?, isStop c

theorem word_append {w r : List Char} (hw : ∀ c ∈ w, isStop c = false) (hr : Behind r) :
    word (w ++ r) = w := by
  have hstop : r.takeWhile (fun c => !isStop c) = [] := by
    cases r with
    | nil => rfl
    | cons c r => rw [List.takeWhile_cons_of_neg (by simp [hr c rfl])]
  rw [word, List.takeWhile_append_of_pos (by simpa using hw), hstop, List.append_nil]

theorem behind_cons {c : Char} (h : isStop c) (r : List Char) : Behind (c :: r) := by
  simpa [Behind] using h

/-! ## Numbers and matrices in fraction mode -/

theorem isStop_of_mem_fractionText {q : ℚ} {c : Char} (h : c ∈ (Numeral.fractionText q).toList) :
    isStop c = false := by
  have hne : ∀ d : Char, d.isDigit = false → d ≠ '-' → d ≠ '/' → c ≠ d := by
    rintro d hd hm hs rfl
    exact Numeral.not_mem_fractionText hd hm hs q h
  simp only [isStop, Bool.or_eq_false_iff, beq_eq_false_iff_ne]
  exact ⟨⟨hne ' ' (by decide) (by decide) (by decide), hne '(' (by decide) (by decide) (by decide)⟩,
    hne ')' (by decide) (by decide) (by decide)⟩

theorem plainCell_fractionText (q : ℚ) : PlainCell (Numeral.fractionText q) :=
  ⟨Numeral.not_mem_fractionText (by decide) (by decide) (by decide) q,
    Numeral.not_mem_fractionText (by decide) (by decide) (by decide) q,
    Numeral.not_mem_fractionText (by decide) (by decide) (by decide) q⟩

namespace RatMatrix

variable {m m' : RatMatrix}

def fractionCells (m : RatMatrix) : List (List String) :=
  m.grid.toRows.map fun row => row.map Numeral.fractionText

theorem text_eq_bracketed (h : m.display = .fraction) : m.text = bracketed m.fractionCells := by
  unfold text
  rw [h]
  rfl

theorem toRows_ne_nil (m : RatMatrix) : m.grid.toRows ≠ [] := by
  rw [ne_eq, ← List.length_eq_zero_iff, Grid.length_toRows]
  exact m.rows_pos.ne'

theorem ne_nil_of_mem_toRows {row : List ℚ} (h : row ∈ m.grid.toRows) : row ≠ [] := by
  obtain ⟨i, -, rfl⟩ := List.mem_map.mp h
  rw [ne_eq, ← List.length_eq_zero_iff, Grid.length_row]
  exact m.cols_pos.ne'

/-- **A matrix in fraction mode is told from what stands behind it.** -/
theorem text_append_inj (h : m.display = .fraction) (h' : m'.display = .fraction)
    {r r' : List Char} (heq : m.text.toList ++ r = m'.text.toList ++ r') : m = m' ∧ r = r' := by
  have hne : ∀ m : RatMatrix, m.fractionCells ≠ [] := fun m => by
    simpa [fractionCells] using m.toRows_ne_nil
  have hrows : ∀ m : RatMatrix, ∀ row ∈ m.fractionCells, row ≠ [] := fun m row hrow => by
    obtain ⟨ns, hns, rfl⟩ := List.mem_map.mp hrow
    simpa using ne_nil_of_mem_toRows hns
  have hcells : ∀ m : RatMatrix, ∀ row ∈ m.fractionCells, ∀ cell ∈ row, PlainCell cell := by
    intro m row hrow cell hcell
    obtain ⟨ns, -, rfl⟩ := List.mem_map.mp hrow
    obtain ⟨q, -, rfl⟩ := List.mem_map.mp hcell
    exact plainCell_fractionText q
  rw [text_eq_bracketed h, text_eq_bracketed h'] at heq
  obtain ⟨hcell, hr⟩ := bracketed_append_inj (hne m) (hne m') (hrows m) (hrows m') (hcells m)
    (hcells m') heq
  have hgrid := Numeral.fractionText_injective.list_map.list_map hcell
  exact ⟨ext_toRows hgrid (h.trans h'.symm), hr⟩

end RatMatrix

namespace Scalar

variable {s s' : Scalar}

theorem word_text (h : s.display = .fraction) {r : List Char} (hr : Behind r) :
    word (s.text.toList ++ r) = (Numeral.fractionText s.value).toList := by
  have htext : s.text = Numeral.fractionText s.value := by
    unfold text
    rw [h]
    rfl
  rw [htext]
  exact word_append (fun c => isStop_of_mem_fractionText) hr

theorem text_append_inj (h : s.display = .fraction) (h' : s'.display = .fraction)
    {r r' : List Char} (hr : Behind r) (hr' : Behind r')
    (heq : s.text.toList ++ r = s'.text.toList ++ r') : s = s' ∧ r = r' := by
  have hword := congrArg word heq
  rw [word_text h hr, word_text h' hr', String.toList_inj] at hword
  obtain rfl : s = s' := by
    cases s
    cases s'
    cases h
    cases h'
    exact congrArg (Scalar.mk · _) (Numeral.fractionText_injective hword)
  exact ⟨rfl, List.append_cancel_left heq⟩

end Scalar

/-! ## Forms -/

inductive Form
  | value (kind : ValueKind)
  | unary
  | binary

/-- The form of expression that a text begins with. -/
def Form.ofText (cs : List Char) : Form :=
  if word cs = [] then .binary
  else if '[' ∈ word cs then .value .matrix
  else if (Numeral.number? (word cs)).isSome then .value .scalar
  else .unary

theorem Operator.symbol_spec (op : Operator) :
    (∀ c ∈ op.symbol.toList, isStop c = false) ∧ op.symbol.toList ≠ [] ∧
      '[' ∉ op.symbol.toList ∧ Numeral.number? op.symbol.toList = none := by
  have hstop : op.symbol.toList.any isStop = false := by
    cases op <;> decide +kernel
  refine ⟨by simpa using hstop, ?_⟩
  cases op <;> decide +kernel

namespace Expr

def form : Expr → Form
  | value v => .value v.kind
  | unary .. => .unary
  | binary .. => .binary

/-- All values of an expression are in fraction mode. -/
def InFractions (e : Expr) : Prop :=
  ∀ v ∈ e.values, v.display = .fraction

theorem inFractions_value {v : Value} : (value v).InFractions ↔ v.display = .fraction :=
  List.forall_mem_singleton

theorem inFractions_unary {op : Operator} {operand : Expr} :
    (unary op operand).InFractions ↔ operand.InFractions :=
  Iff.rfl

theorem inFractions_binary {op : Operator} {first second : Expr} :
    (binary op first second).InFractions ↔ first.InFractions ∧ second.InFractions :=
  List.forall_mem_append

theorem toList_unary (op : Operator) (operand : Expr) (r : List Char) :
    (unary op operand).text.toList ++ r =
      op.symbol.toList ++ '(' :: (operand.text.toList ++ ')' :: r) := by
  simp [text]

theorem toList_binary (op : Operator) (first second : Expr) (r : List Char) :
    (binary op first second).text.toList ++ r =
      '(' :: (first.text.toList ++ ' ' ::
        (op.symbol.toList ++ ' ' :: (second.text.toList ++ ')' :: r))) := by
  simp [text]

/-- **The text of an expression begins in the expression's form.** -/
theorem ofText_text {e : Expr} (he : e.InFractions) {r : List Char} (hr : Behind r) :
    Form.ofText (e.text.toList ++ r) = e.form := by
  cases e with
  | value v =>
    have hv := inFractions_value.mp he
    cases v with
    | scalar s =>
      have hword : word ((value (.scalar s)).text.toList ++ r) = _ := Scalar.word_text hv hr
      rw [Form.ofText, hword, if_neg (Numeral.fractionText_ne_nil s.value),
        if_neg (plainCell_fractionText s.value).2.1, Numeral.number?_fractionText]
      rfl
    | matrix m =>
      have htext : (value (.matrix m)).text = bracketed m.fractionCells :=
        RatMatrix.text_eq_bracketed hv
      obtain ⟨cs, hcs⟩ : ∃ cs, (value (.matrix m)).text.toList ++ r = '[' :: cs := by
        rw [htext]
        simp [bracketed]
      have hword : word ('[' :: cs) = '[' :: word cs := rfl
      rw [Form.ofText, hcs, hword, if_neg (by simp), if_pos (by simp)]
      rfl
  | unary op operand =>
    obtain ⟨hstop, hne, hopen, hnumber⟩ := op.symbol_spec
    rw [Form.ofText, toList_unary, word_append hstop (behind_cons (by decide) _), if_neg hne,
      if_neg hopen, hnumber]
    rfl
  | binary op first second =>
    rw [toList_binary]
    rfl

/-! ## Texts determine expressions -/

/-- The same shape and the same values, with operators of the same symbols. -/
inductive Alike : Expr → Expr → Prop
  | value (v : Value) : Alike (value v) (value v)
  | unary {op op' : Operator} {e e' : Expr} (symbol : op.symbol = op'.symbol)
      (operand : Alike e e') : Alike (unary op e) (unary op' e')
  | binary {op op' : Operator} {a a' b b' : Expr} (symbol : op.symbol = op'.symbol)
      (first : Alike a a') (second : Alike b b') : Alike (binary op a b) (binary op' a' b')

theorem Alike.text_eq {e e' : Expr} (h : Alike e e') : e.text = e'.text := by
  induction h with
  | value v => rfl
  | unary symbol _ ih => rw [text, text, symbol, ih]
  | binary symbol _ _ ih₁ ih₂ => rw [text, text, symbol, ih₁, ih₂]

theorem symbol_append_inj {op op' : Operator} {r r' : List Char} (hr : Behind r) (hr' : Behind r')
    (heq : op.symbol.toList ++ r = op'.symbol.toList ++ r') :
    op.symbol = op'.symbol ∧ r = r' := by
  have hword := congrArg word heq
  rw [word_append op.symbol_spec.1 hr, word_append op'.symbol_spec.1 hr'] at hword
  exact ⟨String.toList_inj.mp hword, List.append_cancel_left (hword ▸ heq)⟩

theorem text_append_inj {e e' : Expr} (he : e.InFractions) (he' : e'.InFractions)
    {r r' : List Char} (hr : Behind r) (hr' : Behind r')
    (heq : e.text.toList ++ r = e'.text.toList ++ r') : Alike e e' ∧ r = r' := by
  have hblank : ∀ r : List Char, Behind (' ' :: r) := behind_cons (by decide)
  have hopening : ∀ r : List Char, Behind ('(' :: r) := behind_cons (by decide)
  have hclosing : ∀ r : List Char, Behind (')' :: r) := behind_cons (by decide)
  induction e generalizing e' r r' with
  | value v =>
    have hform : Form.value v.kind = e'.form := by
      rw [← ofText_text he' hr', ← heq, ofText_text he hr, form]
    cases e' with
    | unary op' operand' => cases hform
    | binary op' first' second' => cases hform
    | value v' =>
      rw [inFractions_value] at he he'
      cases v with
      | scalar s =>
        cases v' with
        | matrix m' => cases hform
        | scalar s' =>
          obtain ⟨rfl, hrest⟩ := Scalar.text_append_inj he he' hr hr' heq
          exact ⟨.value _, hrest⟩
      | matrix m =>
        cases v' with
        | scalar s' => cases hform
        | matrix m' =>
          obtain ⟨rfl, hrest⟩ := RatMatrix.text_append_inj he he' heq
          exact ⟨.value _, hrest⟩
  | unary op operand ih =>
    have hform : Form.unary = e'.form := by
      rw [← ofText_text he' hr', ← heq, ofText_text he hr, form]
    cases e' with
    | value v' => cases hform
    | binary op' first' second' => cases hform
    | unary op' operand' =>
      rw [inFractions_unary] at he he'
      rw [toList_unary, toList_unary] at heq
      obtain ⟨hsymbol, hbehind⟩ := symbol_append_inj (hopening _) (hopening _) heq
      obtain ⟨hoperand, hrest⟩ := ih he he' (hclosing r) (hclosing r') (List.cons.inj hbehind).2
      exact ⟨.unary hsymbol hoperand, (List.cons.inj hrest).2⟩
  | binary op first second ih₁ ih₂ =>
    have hform : Form.binary = e'.form := by
      rw [← ofText_text he' hr', ← heq, ofText_text he hr, form]
    cases e' with
    | value v' => cases hform
    | unary op' operand' => cases hform
    | binary op' first' second' =>
      rw [inFractions_binary] at he he'
      rw [toList_binary, toList_binary] at heq
      obtain ⟨hfirst, hbehind⟩ :=
        ih₁ he.1 he'.1 (hblank _) (hblank _) (List.cons.inj heq).2
      obtain ⟨hsymbol, hbehind⟩ :=
        symbol_append_inj (hblank _) (hblank _) (List.cons.inj hbehind).2
      obtain ⟨hsecond, hrest⟩ :=
        ih₂ he.2 he'.2 (hclosing r) (hclosing r') (List.cons.inj hbehind).2
      exact ⟨.binary hsymbol hfirst hsecond, (List.cons.inj hrest).2⟩

/-- **The text of an expression determines it**, but for operators that share a symbol, if its
values are in fraction mode. -/
theorem text_eq_iff_alike {e e' : Expr} (he : e.InFractions) (he' : e'.InFractions) :
    e.text = e'.text ↔ Alike e e' := by
  constructor
  · intro h
    have hnil : Behind [] := fun c hc => by cases hc
    exact (text_append_inj he he' hnil hnil (congrArg (·.toList ++ []) h)).1
  · exact Alike.text_eq

/-- Products of the same symbol, of a negative quotient and a matrix. -/
theorem text_eq_iff_alike_of_products :
    let m : RatMatrix := ⟨1, 2, .ofFn fun _ j => if j = 0 then -1 / 2 else 3, .fraction,
      by decide, by decide⟩
    let product := fun op => binary op (value (.scalar ⟨-2 / 3, .fraction⟩))
      (unary .transpose (value (.matrix m)))
    (product .scalarMatrixMultiply).text = "(-2/3 * transpose([[-1/2, 3]]))" ∧
      Alike (product .scalarMatrixMultiply) (product .matrixMultiply) := by
  intro m product
  have hvalues : ∀ op, (product op).InFractions := by
    simp [product, m, InFractions, values, Value.display]
  have htext : (product .scalarMatrixMultiply).text = "(-2/3 * transpose([[-1/2, 3]]))" := by
    decide +kernel
  exact ⟨htext, (text_eq_iff_alike (hvalues _) (hvalues _)).mp rfl⟩

end Expr
end WorkedAlgebra
