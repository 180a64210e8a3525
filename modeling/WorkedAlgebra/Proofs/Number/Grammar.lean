import Mathlib.Algebra.Order.Field.Rat
import Mathlib.Data.List.Induction
import Mathlib.Data.List.TakeWhile
import Mathlib.Tactic.FieldSimp
import Mathlib.Tactic.NormNum
import Mathlib.Tactic.Ring
import WorkedAlgebra.Proofs.Number.Numeral

/-!
# The grammar of number texts

* **`Numeral.number?_reads_denoted`**: the texts that are read as numbers are those of
  `Numeral.Denotes`, between blanks.
-/

namespace WorkedAlgebra

/-! ## Blanks around a text -/

namespace Text

/-- A text that starts and ends with characters that are not blank. -/
def Tight (cs : List Char) : Prop :=
  (∃ c ∈ cs.head?, isBlank c = false) ∧ ∃ c ∈ cs.getLast?, isBlank c = false

theorem tight_of_forall {cs : List Char} (hne : cs ≠ []) (h : ∀ c ∈ cs, isBlank c = false) :
    Tight cs :=
  ⟨⟨_, List.head?_eq_some_head hne, h _ (List.head_mem hne)⟩,
    ⟨_, List.getLast?_eq_some_getLast hne, h _ (List.getLast_mem hne)⟩⟩

theorem Tight.ne_nil {cs : List Char} (h : Tight cs) : cs ≠ [] := by
  rintro rfl
  obtain ⟨⟨c, hc, -⟩, -⟩ := h
  exact absurd hc (by simp)

theorem Tight.append {cs ds : List Char} (hc : Tight cs) (hd : Tight ds) (mid : List Char) :
    Tight (cs ++ (mid ++ ds)) := by
  refine ⟨?_, ?_⟩
  · rw [List.head?_append_of_ne_nil _ hc.ne_nil]
    exact hc.1
  · rw [← List.append_assoc, List.getLast?_append_of_ne_nil _ hd.ne_nil]
    exact hd.2

theorem dropWhile_isBlank_of_head? {cs : List Char} (h : ∃ c ∈ cs.head?, isBlank c = false) :
    cs.dropWhile isBlank = cs := by
  cases cs with
  | nil => rfl
  | cons c cs =>
    obtain ⟨d, hd, hblank⟩ := h
    obtain rfl : c = d := by simpa using hd
    rw [List.dropWhile_cons, if_neg (by simp [hblank])]

/-- **Blanks around a tight text are removed**, and no others. -/
theorem Tight.trim_eq {core : List Char} (h : Tight core) {before after : List Char}
    (hb : ∀ c ∈ before, isBlank c) (ha : ∀ c ∈ after, isBlank c) :
    trim (before ++ core ++ after) = core := by
  have hstart : (core ++ after).dropWhile isBlank = core ++ after := by
    refine dropWhile_isBlank_of_head? ?_
    rw [List.head?_append_of_ne_nil _ h.ne_nil]
    exact h.1
  have hend : core.reverse.dropWhile isBlank = core.reverse := by
    refine dropWhile_isBlank_of_head? ?_
    rw [List.head?_reverse]
    exact h.2
  unfold trim
  rw [List.append_assoc, List.dropWhile_append_of_pos hb, hstart, List.reverse_append,
    List.dropWhile_append_of_pos fun c hc => ha c (List.mem_reverse.mp hc), hend,
    List.reverse_reverse]

theorem exists_eq_append_trim (cs : List Char) :
    ∃ before after, cs = before ++ trim cs ++ after ∧ (∀ c ∈ before, isBlank c) ∧
      ∀ c ∈ after, isBlank c := by
  refine ⟨cs.takeWhile isBlank, ((cs.dropWhile isBlank).reverse.takeWhile isBlank).reverse, ?_,
    fun c hc => List.mem_takeWhile_imp hc,
    fun c hc => List.mem_takeWhile_imp (List.mem_reverse.mp hc)⟩
  unfold trim
  rw [List.append_assoc, ← List.reverse_append, List.takeWhile_append_dropWhile,
    List.reverse_reverse, List.takeWhile_append_dropWhile]

end Text

namespace Numeral

/-! ## Number texts -/

def digit (c : Char) : ℕ := c.toNat - '0'.toNat

/-- Digits that denote a natural number by their places. Underscores may follow the first one. -/
inductive Digits : List Char → ℕ → Prop
  | first {c : Char} (hc : c.isDigit) : Digits [c] (digit c)
  | next {cs : List Char} {n : ℕ} {c : Char} (h : Digits cs n) (hc : c.isDigit) :
    Digits (cs ++ [c]) (10 * n + digit c)
  | underscore {cs : List Char} {n : ℕ} (h : Digits cs n) : Digits (cs ++ ['_']) n

/-- Digits that denote a number below one, by their places behind a decimal point. -/
inductive Places : List Char → ℚ → Prop
  | nil : Places [] 0
  | cons {c : Char} {cs : List Char} {x : ℚ} (hc : c.isDigit) (h : Places cs x) :
    Places (c :: cs) ((digit c + x) / 10)

/-- At most one sign, with what it multiplies by. -/
inductive Sign : List Char → ℤ → Prop
  | none : Sign [] 1
  | plus : Sign ['+'] 1
  | minus : Sign ['-'] (-1)

inductive Integer : List Char → ℤ → Prop
  | mk {s cs : List Char} {e : ℤ} {n : ℕ} (hs : Sign s e) (h : Digits cs n) :
    Integer (s ++ cs) (e * n)

/-- The digits before a decimal point, if there are any. -/
inductive Whole : List Char → ℕ → Prop
  | none : Whole [] 0
  | digits {cs : List Char} {n : ℕ} (h : Digits cs n) : Whole cs n

/-- The number texts without blanks around them, **with the numbers that they denote**. -/
inductive Denotes : List Char → ℚ → Prop
  | integer {cs : List Char} {n : ℤ} (h : Integer cs n) : Denotes cs n
  /-- A quotient, which may have blanks around its slash. -/
  | quotient {above left right below : List Char} {n d : ℤ} (hn : Integer above n)
    (hl : ∀ c ∈ left, Text.isBlank c) (hr : ∀ c ∈ right, Text.isBlank c) (hd : Integer below d)
    (h : d ≠ 0) : Denotes (above ++ left ++ '/' :: (right ++ below)) (n / d)
  /-- A decimal, with a digit before or behind its point. The sign applies to what is behind it,
  too. -/
  | pointed {s whole places : List Char} {e : ℤ} {n : ℕ} {x : ℚ} (hs : Sign s e)
    (hn : Whole whole n) (hx : Places places x) (hne : whole ++ places ≠ []) :
    Denotes (s ++ whole ++ '.' :: places) (e * (n + x))

/-! ## Natural numbers -/

/-- The number that the digits among some characters make. -/
def valueOf (cs : List Char) : ℕ :=
  Nat.ofDigitChars 10 (cs.filter (· != '_')) 0

theorem ne_underscore_of_isDigit {c : Char} (h : c.isDigit) : (c != '_') = true := by
  have hne : c ≠ '_' := by
    rintro rfl
    exact absurd h (by decide)
  simpa using hne

theorem valueOf_concat {c : Char} (hc : c.isDigit) (cs : List Char) :
    valueOf (cs ++ [c]) = 10 * valueOf cs + digit c := by
  have hfilter : [c].filter (· != '_') = [c] := by simp [ne_underscore_of_isDigit hc]
  unfold valueOf
  rw [List.filter_append, hfilter, Nat.ofDigitChars_append, Nat.ofDigitChars_cons,
    Nat.ofDigitChars_nil]
  rfl

theorem valueOf_underscore (cs : List Char) : valueOf (cs ++ ['_']) = valueOf cs := by
  have hfilter : ['_'].filter (· != '_') = [] := by simp
  unfold valueOf
  rw [List.filter_append, hfilter, List.append_nil]

theorem valueOf_singleton {c : Char} (hc : c.isDigit) : valueOf [c] = digit c :=
  (valueOf_concat hc []).trans (Nat.zero_add _)

theorem digits_iff {cs : List Char} {n : ℕ} :
    Digits cs n ↔ (∃ c ds, cs = c :: ds ∧ c.isDigit ∧ ∀ d ∈ ds, d.isDigit ∨ d = '_') ∧
      valueOf cs = n := by
  constructor
  · intro h
    induction h with
    | @first c hc => exact ⟨⟨c, [], rfl, hc, by simp⟩, valueOf_singleton hc⟩
    | @next cs n c h hc ih =>
      obtain ⟨⟨d, ds, rfl, hd, hds⟩, rfl⟩ := ih
      refine ⟨⟨d, ds ++ [c], rfl, hd, ?_⟩, valueOf_concat hc _⟩
      exact List.forall_mem_append.mpr ⟨hds, by simp [hc]⟩
    | @underscore cs n h ih =>
      obtain ⟨⟨d, ds, rfl, hd, hds⟩, rfl⟩ := ih
      refine ⟨⟨d, ds ++ ['_'], rfl, hd, ?_⟩, valueOf_underscore _⟩
      exact List.forall_mem_append.mpr ⟨hds, by simp⟩
  · rintro ⟨⟨c, ds, rfl, hc, hds⟩, rfl⟩
    induction ds using List.reverseRecOn with
    | nil =>
      rw [valueOf_singleton hc]
      exact .first hc
    | append_singleton ds d ih =>
      obtain ⟨hds, hd⟩ := List.forall_mem_append.mp hds
      have h := ih hds
      rw [← List.cons_append]
      rcases hd d (List.mem_singleton_self d) with hd | rfl
      · rw [valueOf_concat hd]
        exact .next h hd
      · rw [valueOf_underscore]
        exact .underscore h

/-- **Natural numbers are read by their digits.** -/
theorem natural?_eq_some_iff {cs : List Char} {n : ℕ} : natural? cs = some n ↔ Digits cs n := by
  rw [digits_iff]
  cases cs with
  | nil => simp [natural?]
  | cons c cs =>
    by_cases h : (c.isDigit && cs.all fun d => d.isDigit || d == '_') = true
    · rw [natural?, if_pos h, Option.some.injEq, valueOf]
      simp_all
    · rw [natural?, if_neg h]
      simp_all

theorem digits_of_forall {cs : List Char} (hne : cs ≠ []) (h : ∀ c ∈ cs, c.isDigit) :
    Digits cs (valueOf cs) := by
  obtain ⟨c, cs, rfl⟩ := List.exists_cons_of_ne_nil hne
  rw [List.forall_mem_cons] at h
  exact digits_iff.mpr ⟨⟨c, cs, rfl, h.1, fun d hd => .inl (h.2 d hd)⟩, rfl⟩

theorem digits_toDigits (n : ℕ) : Digits (Nat.toDigits 10 n) n :=
  natural?_eq_some_iff.mp (natural?_toDigits n)

/-! ## Integers -/

theorem Digits.ne_nil {cs : List Char} {n : ℕ} (h : Digits cs n) : cs ≠ [] := by
  obtain ⟨⟨c, ds, rfl, -⟩, -⟩ := digits_iff.mp h
  exact List.cons_ne_nil c ds

theorem Digits.mem {cs : List Char} {n : ℕ} (h : Digits cs n) {c : Char} (hc : c ∈ cs) :
    c.isDigit ∨ c = '_' := by
  obtain ⟨⟨d, ds, rfl, hd, hds⟩, -⟩ := digits_iff.mp h
  rcases List.mem_cons.mp hc with rfl | hc
  · exact .inl hd
  · exact hds c hc

theorem Sign.mem {s : List Char} {e : ℤ} (h : Sign s e) {c : Char} (hc : c ∈ s) :
    c = '+' ∨ c = '-' := by
  cases h with
  | none => exact absurd hc List.not_mem_nil
  | plus => exact .inl (List.mem_singleton.mp hc)
  | minus => exact .inr (List.mem_singleton.mp hc)

/-- **Integers are read by their sign and their digits.** -/
theorem integer?_eq_some_iff {cs : List Char} {z : ℤ} : integer? cs = some z ↔ Integer cs z := by
  constructor
  · intro h
    have hsigned : ∀ {s ds : List Char} {e k : ℤ}, Sign s e →
        (do let n ← natural? ds; pure (n : ℤ) : Option ℤ) = some k → e * k = z →
          Integer (s ++ ds) z := by
      rintro s ds e k hs hk rfl
      obtain ⟨n, hn, hk⟩ := Option.bind_eq_some_iff.mp hk
      obtain rfl := Option.some.inj hk
      exact .mk hs (natural?_eq_some_iff.mp hn)
    unfold integer? at h
    split at h
    · obtain ⟨k, hk, rfl⟩ := Option.map_eq_some_iff.mp h
      exact hsigned .minus hk (neg_one_mul k)
    · obtain ⟨k, hk, rfl⟩ := Option.map_eq_some_iff.mp h
      exact hsigned .plus hk (one_mul k)
    · obtain ⟨k, hk, rfl⟩ := Option.map_eq_some_iff.mp h
      exact hsigned .none hk (one_mul k)
  · rintro ⟨hs, h⟩
    have hread := natural?_eq_some_iff.mpr h
    cases hs with
    | plus => simp [integer?, hread]
    | minus => simp [integer?, hread]
    | none =>
      -- a digit is no sign
      have hsign : ∀ {c ds m}, c = '-' ∨ c = '+' → ¬ Digits (c :: ds) m := fun hc h =>
        absurd (h.mem List.mem_cons_self) (by rcases hc with rfl | rfl <;> decide)
      rw [List.nil_append]
      unfold integer?
      split
      · exact absurd h (hsign (.inl rfl))
      · exact absurd h (hsign (.inr rfl))
      · simp [hread]

theorem Whole.mem {cs : List Char} {n : ℕ} (h : Whole cs n) {c : Char} (hc : c ∈ cs) :
    c.isDigit ∨ c = '_' := by
  cases h with
  | none => exact absurd hc List.not_mem_nil
  | digits h => exact h.mem hc

theorem Sign.mem_append {s cs : List Char} {e : ℤ} {n : ℕ} (hs : Sign s e) (h : Whole cs n)
    {c : Char} (hc : c ∈ s ++ cs) : c.isDigit ∨ c ∈ ['_', '+', '-'] := by
  rcases List.mem_append.mp hc with hc | hc
  · exact .inr (by rcases hs.mem hc with rfl | rfl <;> decide)
  · exact (h.mem hc).imp id fun hc => by rw [hc]; decide

theorem Integer.mem {cs : List Char} {z : ℤ} (h : Integer cs z) {c : Char} (hc : c ∈ cs) :
    c.isDigit ∨ c ∈ ['_', '+', '-'] := by
  obtain ⟨hs, h⟩ := h
  exact hs.mem_append (.digits h) hc

theorem isBlank_of_mem_sign {c : Char} (h : c.isDigit ∨ c ∈ ['_', '+', '-']) :
    Text.isBlank c = false := by
  rcases h with h | h
  · exact Text.isBlank_of_isDigit h
  · have hsign : c = '_' ∨ c = '+' ∨ c = '-' := by simpa using h
    rcases hsign with rfl | rfl | rfl <;> rfl

theorem Integer.tight {cs : List Char} {z : ℤ} (h : Integer cs z) : Text.Tight cs := by
  refine Text.tight_of_forall ?_ fun c hc => isBlank_of_mem_sign (h.mem hc)
  obtain ⟨-, h⟩ := h
  exact List.append_ne_nil_of_right_ne_nil _ h.ne_nil

/-! ## Decimals -/

theorem valueOf_append {places : List Char} (hp : ∀ c ∈ places, c.isDigit) (cs : List Char) :
    valueOf (cs ++ places) = valueOf cs * 10 ^ places.length + valueOf places := by
  induction places using List.reverseRecOn with
  | nil => simp [valueOf]
  | append_singleton ps c ih =>
    obtain ⟨hps, hc⟩ := List.forall_mem_append.mp hp
    have hc := hc c (List.mem_singleton_self c)
    rw [← List.append_assoc, valueOf_concat hc, valueOf_concat hc, ih hps, List.length_append,
      List.length_singleton, pow_succ]
    ring

theorem places_iff {cs : List Char} {x : ℚ} :
    Places cs x ↔ (∀ c ∈ cs, c.isDigit) ∧ x = valueOf cs / 10 ^ cs.length := by
  induction cs generalizing x with
  | nil =>
    constructor
    · rintro ⟨⟩
      simp [valueOf]
    · rintro ⟨-, rfl⟩
      simpa [valueOf] using Places.nil
  | cons c cs ih =>
    have hvalue : c.isDigit → (∀ d ∈ cs, d.isDigit) →
        ((digit c + valueOf cs / 10 ^ cs.length) / 10 : ℚ) =
          valueOf (c :: cs) / 10 ^ (c :: cs).length := by
      intro hc hcs
      have happend := valueOf_append hcs [c]
      rw [List.singleton_append, valueOf_singleton hc] at happend
      rw [happend, List.length_cons, pow_succ]
      push_cast
      field_simp
    constructor
    · rintro (_ | ⟨hc, h⟩)
      obtain ⟨hcs, rfl⟩ := ih.mp h
      exact ⟨List.forall_mem_cons.mpr ⟨hc, hcs⟩, hvalue hc hcs⟩
    · rintro ⟨hall, rfl⟩
      obtain ⟨hc, hcs⟩ := List.forall_mem_cons.mp hall
      rw [← hvalue hc hcs]
      exact .cons hc (ih.mpr ⟨hcs, rfl⟩)

theorem digits_append_iff {cs places : List Char} {m : ℕ} (hp : ∀ c ∈ places, c.isDigit) :
    Digits (cs ++ places) m ↔ cs ++ places ≠ [] ∧
      ∃ n, Whole cs n ∧ m = n * 10 ^ places.length + valueOf places := by
  constructor
  · intro h
    refine ⟨h.ne_nil, ?_⟩
    cases cs with
    | nil =>
      refine ⟨0, .none, ?_⟩
      rw [← (digits_iff.mp h).2, List.nil_append, zero_mul, zero_add]
    | cons c cs =>
      obtain ⟨⟨d, ds, hds, hd, hall⟩, hm⟩ := digits_iff.mp h
      obtain ⟨rfl, rfl⟩ := List.cons.inj hds
      refine ⟨_, .digits (digits_iff.mpr ⟨⟨c, cs, rfl, hd, ?_⟩, rfl⟩), ?_⟩
      · exact (List.forall_mem_append.mp hall).1
      · rw [← hm, valueOf_append hp]
  · rintro ⟨hne, n, hn, rfl⟩
    cases hn with
    | none =>
      obtain ⟨c, ds, rfl⟩ := List.exists_cons_of_ne_nil hne
      obtain ⟨hc, hds⟩ := List.forall_mem_cons.mp hp
      refine digits_iff.mpr ⟨⟨c, ds, rfl, hc, fun d hd => .inl (hds d hd)⟩, ?_⟩
      rw [List.nil_append, zero_mul, zero_add]
    | digits h =>
      obtain ⟨⟨c, ds, rfl, hc, hds⟩, rfl⟩ := digits_iff.mp h
      refine digits_iff.mpr ⟨⟨c, ds ++ places, rfl, hc, ?_⟩, valueOf_append hp _⟩
      exact List.forall_mem_append.mpr ⟨hds, fun d hd => .inl (hp d hd)⟩

theorem integer_append_iff {whole places : List Char} {z : ℤ} (hp : ∀ c ∈ places, c.isDigit) :
    Integer (whole ++ places) z ↔ ∃ s cs e m, whole = s ++ cs ∧ Sign s e ∧
      Digits (cs ++ places) m ∧ z = e * m := by
  constructor
  · intro h
    generalize htext : whole ++ places = text at h
    obtain @⟨s, ds, e, m, hs, h⟩ := h
    rcases List.append_eq_append_iff.mp htext with ⟨mid, rfl, rfl⟩ | ⟨cs, rfl, rfl⟩
    · -- what both a sign and digits have is empty
      have hmid : mid = [] := by
        refine List.eq_nil_iff_forall_not_mem.mpr fun c hc => ?_
        have hdigit := hp c (List.mem_append_left _ hc)
        rcases hs.mem (List.mem_append_right _ hc) with rfl | rfl
        · exact absurd hdigit (by decide)
        · exact absurd hdigit (by decide)
      subst hmid
      exact ⟨whole, [], e, m, by simp, by simpa using hs, by simpa using h, rfl⟩
    · exact ⟨s, cs, e, m, rfl, hs, h, rfl⟩
  · rintro ⟨s, cs, e, m, rfl, hs, h, rfl⟩
    rw [List.append_assoc]
    exact .mk hs h

/-- **Decimals are read by their sign and their digits.** -/
theorem pointed?_eq_some_iff {whole places : List Char} {q : ℚ} :
    pointed? whole places = some q ↔ ∃ s cs e n x, whole = s ++ cs ∧ Sign s e ∧ Whole cs n ∧
      Places places x ∧ cs ++ places ≠ [] ∧ q = e * (n + x) := by
  by_cases hp : ∀ c ∈ places, c.isDigit
  · have hall : places.all Char.isDigit = true := List.all_eq_true.mpr hp
    have hpow : (10 ^ places.length : ℚ) ≠ 0 := pow_ne_zero _ (by norm_num)
    -- the digits behind the point, read as a part of the integer, are divided by as many tens
    have hvalue (e : ℤ) (n : ℕ) :
        mkRat (e * (n * 10 ^ places.length + valueOf places : ℕ)) (Nat.pow 10 places.length) =
          e * (n + valueOf places / 10 ^ places.length) := by
      rw [Rat.mkRat_eq_div, Nat.pow_eq]
      push_cast
      field_simp
    rw [pointed?, if_pos hall, Option.map_eq_some_iff]
    simp only [integer?_eq_some_iff, integer_append_iff hp, digits_append_iff hp, places_iff]
    constructor
    · rintro ⟨z, ⟨s, cs, e, m, rfl, hs, ⟨hne, n, hn, rfl⟩, rfl⟩, rfl⟩
      exact ⟨s, cs, e, n, _, rfl, hs, hn, ⟨hp, rfl⟩, hne, hvalue e n⟩
    · rintro ⟨s, cs, e, n, x, rfl, hs, hn, ⟨-, rfl⟩, hne, rfl⟩
      exact ⟨_, ⟨s, cs, e, _, rfl, hs, ⟨hne, n, hn, rfl⟩, rfl⟩, hvalue e n⟩
  · have hall : ¬ places.all Char.isDigit = true := fun h => hp (List.all_eq_true.mp h)
    rw [pointed?, if_neg hall]
    simp [places_iff, hp]

/-! ## Quotients -/

/-- **Quotients are read by the integers between their blanks.** -/
theorem quotient?_eq_some_iff {above below : List Char} {q : ℚ} :
    quotient? above below = some q ↔ ∃ n d : ℤ, Integer (Text.trim above) n ∧
      Integer (Text.trim below) d ∧ d ≠ 0 ∧ q = n / d := by
  unfold quotient?
  simp only [Option.bind_eq_bind, Option.bind_eq_some_iff, integer?_eq_some_iff]
  constructor
  · rintro ⟨n, hn, d, hd, h⟩
    by_cases hz : d = 0
    · rw [if_pos hz] at h
      cases h
    · rw [if_neg hz, Option.some.injEq, Rat.divInt_eq_div] at h
      exact ⟨n, d, hn, hd, hz, h.symm⟩
  · rintro ⟨n, d, hn, hd, hz, rfl⟩
    exact ⟨n, hn, d, hd, by rw [if_neg hz, Rat.divInt_eq_div]⟩

/-! ## All forms -/

theorem splitAtFirst_eq_some {c : Char} {cs before after : List Char}
    (h : splitAtFirst c cs = some (before, after)) : cs = before ++ c :: after := by
  have hsplit := List.takeWhile_append_dropWhile (p := (· != c)) (l := cs)
  have hhead := List.head?_dropWhile_not (· != c) cs
  unfold splitAtFirst at h
  cases hdrop : cs.dropWhile (· != c) with
  | nil =>
    rw [hdrop] at h
    cases h
  | cons d ds =>
    rw [hdrop] at h hhead hsplit
    obtain ⟨rfl, rfl⟩ := Prod.mk.inj (Option.some.inj h)
    obtain rfl : d = c := by simpa using hhead
    exact hsplit.symm

theorem Places.mem {cs : List Char} {x : ℚ} (h : Places cs x) {c : Char} (hc : c ∈ cs) :
    c.isDigit :=
  (places_iff.mp h).1 c hc

theorem Denotes.tight {cs : List Char} {q : ℚ} (h : Denotes cs q) : Text.Tight cs := by
  cases h with
  | integer h => exact h.tight
  | @quotient above left right below n d hn hl hr hd h =>
    have htight := hn.tight.append hd.tight (left ++ '/' :: right)
    simpa using htight
  | @pointed s whole places e n x hs hn hx hne =>
    refine Text.tight_of_forall (by simp) fun c hc => ?_
    rcases List.mem_append.mp hc with hc | hc
    · exact isBlank_of_mem_sign (hs.mem_append hn hc)
    · rcases List.mem_cons.mp hc with rfl | hc
      · decide
      · exact Text.isBlank_of_isDigit (hx.mem hc)

theorem Denotes.trim_eq {cs : List Char} {q : ℚ} (h : Denotes cs q) : Text.trim cs = cs := by
  simpa using h.tight.trim_eq (List.forall_mem_nil _) (List.forall_mem_nil _)

theorem Denotes.number?_eq {text core : List Char} {q : ℚ} (h : Denotes core q)
    (htrim : Text.trim text = core) : number? text = some q := by
  have hpunctuation : ∀ {c : Char}, c = '/' ∨ c = '.' → ¬ (c.isDigit ∨ c ∈ ['_', '+', '-']) := by
    rintro c (rfl | rfl) <;> decide
  unfold number?
  rw [htrim]
  dsimp only
  cases h with
  | integer h =>
    have hslash := splitAtFirst_eq_none fun hc => hpunctuation (.inl rfl) (h.mem hc)
    have hpoint := splitAtFirst_eq_none fun hc => hpunctuation (.inr rfl) (h.mem hc)
    simp [hslash, hpoint, integer?_eq_some_iff.mpr h]
  | @quotient above left right below n d hn hl hr hd h =>
    have hslash : '/' ∉ above ++ left := by
      rw [List.mem_append, not_or]
      exact ⟨fun hc => hpunctuation (.inl rfl) (hn.mem hc), fun hc => absurd (hl _ hc) (by decide)⟩
    have habove : Text.trim (above ++ left) = above :=
      hn.tight.trim_eq (List.forall_mem_nil _) hl
    have hbelow : Text.trim (right ++ below) = below := by
      simpa using hd.tight.trim_eq hr (List.forall_mem_nil _)
    rw [splitAtFirst_append hslash]
    refine quotient?_eq_some_iff.mpr ⟨n, d, ?_, ?_, h, rfl⟩
    · rwa [habove]
    · rwa [hbelow]
  | @pointed s whole places e n x hs hn hx hne =>
    have hbefore : ∀ {c : Char}, c = '/' ∨ c = '.' → c ∉ s ++ whole := fun h hc =>
      hpunctuation h (hs.mem_append hn hc)
    have hslash : '/' ∉ s ++ whole ++ '.' :: places := by
      rw [List.mem_append, List.mem_cons, not_or, not_or]
      exact ⟨hbefore (.inl rfl), by decide, fun hc => absurd (hx.mem hc) (by decide)⟩
    rw [splitAtFirst_eq_none hslash]
    dsimp only
    rw [splitAtFirst_append (hbefore (.inr rfl))]
    exact pointed?_eq_some_iff.mpr ⟨s, whole, e, n, x, rfl, hs, hn, hx, hne, rfl⟩

theorem denotes_of_number? {text : List Char} {q : ℚ} (h : number? text = some q) :
    ∃ before core after, text = before ++ core ++ after ∧ (∀ c ∈ before, Text.isBlank c) ∧
      (∀ c ∈ after, Text.isBlank c) ∧ Denotes core q := by
  obtain ⟨before, after, htext, hb, ha⟩ := Text.exists_eq_append_trim text
  unfold number? at h
  dsimp only at h
  cases hslash : splitAtFirst '/' (Text.trim text) with
  | some parts =>
    obtain ⟨above, below⟩ := parts
    rw [hslash] at h
    obtain ⟨n, d, hn, hd, hz, rfl⟩ := quotient?_eq_some_iff.mp h
    -- blanks at the outer ends of a quotient are blanks around it
    obtain ⟨b₁, a₁, habove, hb₁, ha₁⟩ := Text.exists_eq_append_trim above
    obtain ⟨b₂, a₂, hbelow, hb₂, ha₂⟩ := Text.exists_eq_append_trim below
    refine ⟨before ++ b₁, _, a₂ ++ after, ?_, List.forall_mem_append.mpr ⟨hb, hb₁⟩,
      List.forall_mem_append.mpr ⟨ha₂, ha⟩, .quotient hn ha₁ hb₂ hd hz⟩
    rw [splitAtFirst_eq_some hslash, habove, hbelow] at htext
    exact htext.trans (by simp)
  | none =>
    rw [hslash] at h
    dsimp only at h
    cases hpoint : splitAtFirst '.' (Text.trim text) with
    | some parts =>
      obtain ⟨whole, places⟩ := parts
      rw [hpoint] at h
      obtain ⟨s, cs, e, n, x, rfl, hs, hn, hx, hne, rfl⟩ := pointed?_eq_some_iff.mp h
      rw [splitAtFirst_eq_some hpoint] at htext
      exact ⟨before, _, after, htext, hb, ha, .pointed hs hn hx hne⟩
    | none =>
      rw [hpoint] at h
      obtain ⟨q, hq, rfl⟩ := Option.map_eq_some_iff.mp h
      obtain ⟨n, hn, hq⟩ := Option.bind_eq_some_iff.mp hq
      obtain rfl := Option.some.inj hq
      exact ⟨before, _, after, htext, hb, ha, .integer (integer?_eq_some_iff.mp hn)⟩

/-- **A text is read as a number exactly if it has one of the forms of numbers between blanks**, and
it is read as the number that it denotes. The text of a rational is read as that rational. -/
theorem number?_reads_denoted :
    (∀ text q, number? text = some q ↔ ∃ before core after, text = before ++ core ++ after ∧
      (∀ c ∈ before, Text.isBlank c) ∧ (∀ c ∈ after, Text.isBlank c) ∧ Denotes core q) ∧
      ∀ q, number? (fractionText q).toList = some q := by
  refine ⟨fun text q => ⟨denotes_of_number?, ?_⟩, number?_fractionText⟩
  rintro ⟨before, core, after, rfl, hb, ha, h⟩
  exact h.number?_eq (h.tight.trim_eq hb ha)

example : number? "-1_0.5".toList = some (mkRat (-21) 2) := by decide +kernel
example : number? " 6 / -8 ".toList = some (mkRat (-3) 4) := by decide +kernel
example : number? ".".toList = none := by decide +kernel

end Numeral
end WorkedAlgebra
