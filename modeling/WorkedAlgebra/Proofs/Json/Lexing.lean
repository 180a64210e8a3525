import Mathlib.Data.List.Chain
import Mathlib.Data.Nat.Digits.Defs
import WorkedAlgebra.Json.Basic
import WorkedAlgebra.Json.Lexer

/-!
# Lexemes are read back

The text of a value is cut into the lexemes of the value. Each lexeme ends where it was written to
end, whatever follows it; only a number needs that nothing follows that would continue it.

* **`parted_lexemes`**, **`lex_render`**: among the lexemes of a value no number follows a number,
  so that they are read back from its text.
-/

namespace WorkedAlgebra.Json

/-! ## Texts -/

/-- How a character may stand in an escaped text: as itself, or a control character by its code. -/
inductive TextUnit.Denotes : TextUnit → Char → Prop
  | plain (c : Char) : Denotes (.plain c) c
  | escaped {c : Char} (control : c.toNat < 0x20) : Denotes (.escaped c.toNat) c

theorem hexValues?_hexDigit {n : ℕ} (h : n < 0x20) :
    hexValues? '0' '0' (hexDigit (n / 16)) (hexDigit (n % 16)) = some n := by
  revert n
  decide

theorem scanText_simpleEscape {c d : Char} (h : simpleEscape? c = some d) (rest : List Char) :
    scanText ('\\' :: c :: rest) = (scanText rest).map fun p => (.plain d :: p.1, p.2) := by
  have hu : c ≠ 'u' := by
    rintro rfl
    exact absurd (h.symm.trans (by decide : simpleEscape? 'u' = none)) (by simp)
  rw [scanText]
  · rw [h]
    cases scanText rest <;> rfl
  · simp [hu]

theorem scanText_plain {c : Char} (hq : c ≠ '"') (hs : c ≠ '\\') (h : 0x20 ≤ c.toNat)
    (rest : List Char) :
    scanText (c :: rest) = (scanText rest).map fun p => (.plain c :: p.1, p.2) := by
  rw [scanText]
  · rw [if_pos h]
    cases scanText rest <;> rfl
  all_goals simp [hq, hs]

theorem scanText_control {n : ℕ} (h : n < 0x20) (rest : List Char) :
    scanText ('\\' :: 'u' :: '0' :: '0' :: hexDigit (n / 16) :: hexDigit (n % 16) :: rest) =
      (scanText rest).map fun p => (.escaped n :: p.1, p.2) := by
  rw [scanText, hexValues?_hexDigit h]
  cases scanText rest <;> rfl

theorem scanText_escapeChar (c : Char) :
    ∃ u : TextUnit, u.Denotes c ∧ ∀ rest, scanText (escapeChar c ++ rest) =
      (scanText rest).map fun p => (u :: p.1, p.2) := by
  unfold escapeChar
  -- a short escape, the character itself, or, for the other control characters, the code unit
  split_ifs with hq hs hp hb ht hn hf hr
  · exact ⟨.plain c, .plain c, scanText_simpleEscape (by rw [hq]; rfl)⟩
  · exact ⟨.plain c, .plain c, scanText_simpleEscape (by rw [hs]; rfl)⟩
  · exact ⟨.plain c, .plain c, scanText_plain hq hs hp⟩
  · exact ⟨.plain c, .plain c, scanText_simpleEscape (by rw [← c.ofNat_toNat, hb]; rfl)⟩
  · exact ⟨.plain c, .plain c, scanText_simpleEscape (by rw [ht]; rfl)⟩
  · exact ⟨.plain c, .plain c, scanText_simpleEscape (by rw [hn]; rfl)⟩
  · exact ⟨.plain c, .plain c, scanText_simpleEscape (by rw [← c.ofNat_toNat, hf]; rfl)⟩
  · exact ⟨.plain c, .plain c, scanText_simpleEscape (by rw [hr]; rfl)⟩
  · exact ⟨.escaped c.toNat, .escaped (by omega), scanText_control (by omega)⟩

theorem scanText_escape (cs rest : List Char) :
    ∃ units, List.Forall₂ TextUnit.Denotes units cs ∧
      scanText (escape cs ++ '"' :: rest) = some (units, rest) := by
  induction cs with
  | nil => exact ⟨[], .nil, rfl⟩
  | cons c cs ih =>
    obtain ⟨units, hus, h⟩ := ih
    obtain ⟨u, hu, hc⟩ := scanText_escapeChar c
    refine ⟨u :: units, .cons hu hus, ?_⟩
    rw [escape, List.flatMap_cons, List.append_assoc, hc, ← escape, h]
    rfl

theorem joinUnits_control {n : ℕ} (h : n < 0x20) (units : List TextUnit) :
    joinUnits (.escaped n :: units) = (joinUnits units).map (Char.ofNat n :: ·) := by
  have hlow : isLowHalf n = false := by simp [isLowHalf]; omega
  have hhigh : isHighHalf n = false := by simp [isHighHalf]; omega
  rcases units with _ | ⟨u, units⟩
  · simp [joinUnits, hlow, hhigh]
  cases u with
  | plain c => simp [joinUnits, hlow, hhigh]
  | escaped m => simp [joinUnits, hlow, hhigh]

theorem joinUnits_of_denotes {units : List TextUnit} {cs : List Char}
    (h : List.Forall₂ TextUnit.Denotes units cs) : joinUnits units = some cs := by
  induction h with
  | nil => rfl
  | cons hu _ ih =>
    cases hu with
    | plain c => rw [joinUnits, ih, Option.map_some]
    | escaped control => rw [joinUnits_control control, ih, Option.map_some, Char.ofNat_toNat]

/-! ## Numbers -/

/-- What follows a number does not continue it. -/
def EndsNumber (cs : List Char) : Prop :=
  ∀ c ∈ cs.head?, c.isDigit = false ∧ c ≠ '.' ∧ c ≠ 'e' ∧ c ≠ 'E'

theorem exists_toDigits_cons (n : ℕ) :
    ∃ c cs, Nat.toDigits 10 n = c :: cs ∧ c.isDigit := by
  cases hn : Nat.toDigits 10 n with
  | nil => exact absurd hn Nat.toDigits_ne_nil
  | cons c cs =>
    exact ⟨c, cs, rfl, Nat.isDigit_of_mem_toDigits (b := 10) (n := n) (by decide) (by decide)
      (by simp [hn])⟩

theorem head?_toDigits_ne_zero {n : ℕ} (h : 0 < n) : (Nat.toDigits 10 n).head? ≠ some '0' := by
  induction n using Nat.strongRecOn with
  | _ n ih =>
    by_cases hn : n < 10
    · rw [Nat.toDigits_of_lt_base hn]
      have hd : ∀ k < 10, 0 < k → [k.digitChar].head? ≠ some '0' := by decide
      exact hd n hn h
    · rw [Nat.toDigits_of_base_le (by decide) (by omega),
        List.head?_append_of_ne_nil _ Nat.toDigits_ne_nil]
      exact ih (n / 10) (by omega) (by omega)

theorem no_leading_zero (n : ℕ) :
    ¬ ((Nat.toDigits 10 n).head? = some '0' ∧ (Nat.toDigits 10 n).length ≠ 1) := by
  rintro ⟨hz, hl⟩
  rcases Nat.eq_zero_or_pos n with rfl | hn
  · exact hl rfl
  · exact head?_toDigits_ne_zero hn hz

theorem EndsNumber.scanDigits? {rest : List Char} (h : EndsNumber rest) (n : ℕ) :
    scanDigits? (Nat.toDigits 10 n ++ rest) = some (Nat.toDigits 10 n, rest) := by
  have hdigit : ∀ c ∈ Nat.toDigits 10 n, c.isDigit :=
    fun c => Nat.isDigit_of_mem_toDigits (by decide) (by decide)
  have htake : rest.takeWhile Char.isDigit = [] ∧ rest.dropWhile Char.isDigit = rest := by
    cases rest with
    | nil => exact ⟨rfl, rfl⟩
    | cons c cs =>
      have hc := (h c rfl).1
      simp [hc]
  unfold Json.scanDigits?
  rw [List.takeWhile_append_of_pos hdigit, List.dropWhile_append_of_pos hdigit, htake.1, htake.2,
    List.append_nil]
  obtain ⟨c, cs, hn, -⟩ := exists_toDigits_cons n
  rw [hn]

theorem EndsNumber.scanWhole? {rest : List Char} (h : EndsNumber rest) (n : ℕ) :
    scanWhole? (Nat.toDigits 10 n ++ rest) = some (Nat.toDigits 10 n, rest) := by
  unfold Json.scanWhole?
  rw [h.scanDigits? n]
  exact if_neg (no_leading_zero n)

theorem EndsNumber.scanPlaces? {rest : List Char} (h : EndsNumber rest) :
    scanPlaces? rest = some rest := by
  unfold Json.scanPlaces?
  split
  · exact absurd rfl (h '.' rfl).2.1
  · rfl

theorem EndsNumber.scanExponent? {rest : List Char} (h : EndsNumber rest) :
    scanExponent? rest = some rest := by
  unfold Json.scanExponent?
  split
  · exact absurd rfl (h 'e' rfl).2.2.1
  · exact absurd rfl (h 'E' rfl).2.2.2
  · rfl

theorem scanNumber_toDigits {rest : List Char} (h : EndsNumber rest) (n : ℕ) :
    scanNumber (Nat.toDigits 10 n ++ rest) = some (some n, rest) := by
  unfold scanNumber
  split
  · next cs hcs =>
    obtain ⟨c, ds, hn, hc⟩ := exists_toDigits_cons n
    rw [hn] at hcs
    obtain rfl : c = '-' := (List.cons.inj hcs).1
    exact absurd hc (by decide)
  · rw [h.scanWhole? n]
    simp only [Option.bind_eq_bind, Option.bind_some, h.scanPlaces?, h.scanExponent?, if_true,
      Nat.ofDigitChars_toDigits (by decide : 1 < 10) (by decide : 10 ≤ 10)]

/-! ## Lexemes -/

namespace Lexeme

def IsWritten : Lexeme → Prop
  | number none | text none | unreadable => False
  | _ => True

def isNumber : Lexeme → Bool
  | number _ => true
  | _ => false

variable {l : Lexeme}

theorem exists_chars_cons (h : l.IsWritten) :
    ∃ c cs, l.chars = c :: cs ∧ isSpace c = false ∧
      (l.isNumber = false → c.isDigit = false ∧ c ≠ '.' ∧ c ≠ 'e' ∧ c ≠ 'E') := by
  cases l with
  | number n =>
    cases n with
    | none => exact h.elim
    | some n =>
      obtain ⟨c, cs, hn, hc⟩ := exists_toDigits_cons n
      refine ⟨c, cs, hn, Bool.eq_false_iff.mpr fun hs => ?_, nofun⟩
      simp only [isSpace, Bool.or_eq_true, beq_iff_eq] at hs
      rcases hs with ((rfl | rfl) | rfl) | rfl <;> exact absurd hc (by decide)
  | text s =>
    cases s with
    | none => exact h.elim
    | some s => exact ⟨_, _, rfl, by decide, fun _ => by decide⟩
  | unreadable => exact h.elim
  | bool b => cases b <;> exact ⟨_, _, rfl, by decide, fun _ => by decide⟩
  | _ => exact ⟨_, _, rfl, by decide, fun _ => by decide⟩

theorem endsNumber_chars (h : l.IsWritten) (hn : l.isNumber = false) (rest : List Char) :
    EndsNumber (l.chars ++ rest) := by
  obtain ⟨c, cs, hl, -, hc⟩ := exists_chars_cons h
  rw [hl]
  rintro _ ⟨⟩
  exact hc hn

end Lexeme

theorem scanLexeme_of_isDigit {c : Char} (h : c.isDigit) (cs : List Char) :
    scanLexeme (c :: cs) = (scanNumber (c :: cs)).map fun p => (.number p.1, p.2) := by
  unfold scanLexeme
  split
  -- no other lexeme starts with a digit
  case h_11 => rfl
  all_goals
    next heq =>
      obtain rfl := (List.cons.inj heq).1
      exact absurd h (by decide)

/-- **Every lexeme that can be written is read back.** -/
theorem scanLexeme_chars {l : Lexeme} (h : l.IsWritten) {rest : List Char}
    (hr : l.isNumber → EndsNumber rest) : scanLexeme (l.chars ++ rest) = some (l, rest) := by
  cases l with
  | number n =>
    cases n with
    | none => exact h.elim
    | some n =>
      have hs := scanNumber_toDigits (hr rfl) n
      change scanLexeme (Nat.toDigits 10 n ++ rest) = _
      obtain ⟨c, cs, hn, hc⟩ := exists_toDigits_cons n
      rw [hn, List.cons_append] at hs ⊢
      rw [scanLexeme_of_isDigit hc, hs, Option.map_some]
  | text s =>
    cases s with
    | none => exact h.elim
    | some s =>
      obtain ⟨units, hu, hs⟩ := scanText_escape s.toList rest
      change scanLexeme ('"' :: (escape s.toList ++ ['"'] ++ rest)) = _
      rw [List.append_assoc, List.singleton_append, scanLexeme, hs, Option.map_some,
        joinUnits_of_denotes hu, Option.map_some, String.ofList_toList]
  | unreadable => exact h.elim
  | bool b => cases b <;> rfl
  | _ => rfl

/-! ## Lists of lexemes -/

/-- Every lexeme of a list can be written, and no number follows a number. -/
structure Parted (ls : List Lexeme) : Prop where
  written : ∀ l ∈ ls, l.IsWritten
  apart : ls.IsChain fun a b => a.isNumber → b.isNumber = false

namespace Parted

variable {l : Lexeme} {ls ms : List Lexeme}

theorem nil : Parted [] :=
  ⟨nofun, .nil⟩

theorem singleton (h : l.IsWritten) : Parted [l] :=
  ⟨by simpa using h, .singleton _⟩

theorem join (h₁ : Parted ls) (hl : l.IsWritten) (hn : l.isNumber = false) (h₂ : Parted ms) :
    Parted (ls ++ l :: ms) := by
  refine ⟨fun a ha => ?_, ?_⟩
  · rcases List.mem_append.mp ha with ha | ha
    · exact h₁.written a ha
    rcases List.mem_cons.mp ha with rfl | ha
    · exact hl
    · exact h₂.written a ha
  · refine h₁.apart.append (h₂.apart.cons fun b _ hn' => ?_) fun a _ b hb _ => ?_
    · exact absurd (hn'.symm.trans hn) (by simp)
    · obtain rfl := Option.some.inj hb
      exact hn

theorem cons (hl : l.IsWritten) (hn : l.isNumber = false) (h : Parted ms) : Parted (l :: ms) :=
  nil.join hl hn h

theorem tail (h : Parted (l :: ls)) : Parted ls :=
  ⟨fun a ha => h.written a (List.mem_cons_of_mem _ ha), h.apart.tail⟩

theorem endsNumber (h : Parted (l :: ls)) (hl : l.isNumber) :
    EndsNumber (ls.flatMap Lexeme.chars) := by
  cases ls with
  | nil => exact nofun
  | cons m ls =>
    rw [List.flatMap_cons]
    exact Lexeme.endsNumber_chars (h.tail.written m List.mem_cons_self)
      ((List.isChain_cons_cons.mp h.apart).1 hl) _

theorem lexUpTo_chars (h : Parted ls) {fuel : ℕ} (hf : ls.length ≤ fuel) :
    lexUpTo fuel (ls.flatMap Lexeme.chars) = ls := by
  induction ls generalizing fuel with
  | nil => cases fuel <;> rfl
  | cons l ls ih =>
    obtain ⟨fuel, rfl⟩ := Nat.exists_eq_add_one_of_ne_zero (Nat.ne_zero_of_lt hf)
    have hw := h.written l List.mem_cons_self
    obtain ⟨c, cs, hl, hs, -⟩ := Lexeme.exists_chars_cons hw
    have hscan := scanLexeme_chars hw h.endsNumber
    rw [hl] at hscan
    rw [List.flatMap_cons, hl, List.cons_append, lexUpTo, List.dropWhile_cons, hs]
    simp only [Bool.false_eq_true, if_false]
    rw [← List.cons_append, hscan]
    simp only [ih h.tail (Nat.le_of_succ_le_succ hf)]

theorem length_le (h : Parted ls) : ls.length ≤ (ls.flatMap Lexeme.chars).length := by
  induction ls with
  | nil => exact Nat.le_refl 0
  | cons l ls ih =>
    obtain ⟨c, cs, hl, -⟩ := Lexeme.exists_chars_cons (h.written l List.mem_cons_self)
    have := ih h.tail
    rw [List.flatMap_cons, hl, List.length_append, List.length_cons, List.length_cons]
    omega

/-- **A list of lexemes is read back from its characters.** -/
theorem lex_chars (h : Parted ls) : lex (ls.flatMap Lexeme.chars) = ls :=
  h.lexUpTo_chars h.length_le

end Parted

-- the induction follows that of the lexemes of a value; commas and colons part the values in it
mutual

theorem parted_lexemes : ∀ j : Json, Parted j.lexemes
  | .null => .singleton trivial
  | .bool _ => .singleton trivial
  | .number _ => .singleton trivial
  | .text _ => .singleton trivial
  | .list items =>
    ((parted_itemLexemes items).join (l := .closeList) trivial rfl .nil).cons trivial rfl
  | .record members =>
    ((parted_memberLexemes members).join (l := .closeRecord) trivial rfl .nil).cons trivial rfl

theorem parted_itemLexemes : ∀ items : List Json, Parted (itemLexemes items)
  | [] => .nil
  | [item] => parted_lexemes item
  | item :: next :: items =>
    (parted_lexemes item).join trivial rfl (parted_itemLexemes (next :: items))

theorem parted_memberLexemes : ∀ members : List (String × Json), Parted (memberLexemes members)
  | [] => .nil
  | [(_, value)] => ((parted_lexemes value).cons (l := .colon) trivial rfl).cons trivial rfl
  | (_, value) :: next :: members =>
    have behind := (parted_lexemes value).join (l := .comma) trivial rfl
      (parted_memberLexemes (next :: members))
    (behind.cons (l := .colon) trivial rfl).cons trivial rfl

end

/-- **The text of a value is cut into the lexemes of the value.** -/
theorem lex_render (j : Json) : lex j.render.toList = j.lexemes := by
  rw [render, String.toList_ofList, (parted_lexemes j).lex_chars]

end WorkedAlgebra.Json
