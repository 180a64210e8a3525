import WorkedAlgebra.Json.Lexeme

/-!
# Lexing JSON

The lexemes of a JSON text, up to the first characters that form none.
-/

namespace WorkedAlgebra.Json

/-! ## Texts -/

def hexValue? (c : Char) : Option Nat :=
  if c.isDigit then some (c.toNat - 48)
  else if 'a' ≤ c ∧ c ≤ 'f' then some (c.toNat - 87)
  else if 'A' ≤ c ∧ c ≤ 'F' then some (c.toNat - 55)
  else none

/-- The value of four hexadecimal digits. -/
def hexValues? (a b c d : Char) : Option Nat := do
  let a ← hexValue? a
  let b ← hexValue? b
  let c ← hexValue? c
  let d ← hexValue? d
  some (((a * 16 + b) * 16 + c) * 16 + d)

/-- The character of a backslash escape other than `\u`. -/
def simpleEscape? (c : Char) : Option Char :=
  if c = '"' ∨ c = '\\' ∨ c = '/' then some c
  else if c = 'b' then some (Char.ofNat 0x08)
  else if c = 'f' then some (Char.ofNat 0x0C)
  else if c = 'n' then some '\n'
  else if c = 'r' then some '\r'
  else if c = 't' then some '\t'
  else none

def isHighHalf (n : Nat) : Bool := 0xD800 ≤ n && n ≤ 0xDBFF

def isLowHalf (n : Nat) : Bool := 0xDC00 ≤ n && n ≤ 0xDFFF

def joinHalves (high low : Nat) : Char :=
  Char.ofNat (0x10000 + (high - 0xD800) * 0x400 + (low - 0xDC00))

/-- A character of a text as it is written: itself, or the code unit of a `\u` escape. -/
inductive TextUnit
  | plain (c : Char)
  | escaped (n : Nat)
deriving DecidableEq, Repr

/-- The units of a text up to its closing quote, and what follows it. -/
def scanText : List Char → Option (List TextUnit × List Char)
  | [] => none
  | '"' :: cs => some ([], cs)
  | '\\' :: 'u' :: a :: b :: c :: d :: cs => do
    let n ← hexValues? a b c d
    let (units, rest) ← scanText cs
    some (.escaped n :: units, rest)
  | '\\' :: c :: cs => do
    let e ← simpleEscape? c
    let (units, rest) ← scanText cs
    some (.plain e :: units, rest)
  | c :: cs =>
    if 0x20 ≤ c.toNat then do
      let (units, rest) ← scanText cs
      some (.plain c :: units, rest)
    else none

/-- The characters of a text, unless half a character stands in it without its other half. -/
def joinUnits : List TextUnit → Option (List Char)
  | [] => some []
  | .plain c :: units => (joinUnits units).map (c :: ·)
  | .escaped high :: .escaped low :: units =>
    if isLowHalf high then none
    else if isHighHalf high then
      if isLowHalf low then (joinUnits units).map (joinHalves high low :: ·) else none
    else (joinUnits (.escaped low :: units)).map (Char.ofNat high :: ·)
  | .escaped n :: units =>
    if isLowHalf n || isHighHalf n then none else (joinUnits units).map (Char.ofNat n :: ·)

/-! ## Numbers -/

def scanDigits? (cs : List Char) : Option (List Char × List Char) :=
  match cs.takeWhile Char.isDigit with
  | [] => none
  | ds => some (ds, cs.dropWhile Char.isDigit)

/-- The whole part of a number: a run of digits that starts with zero only if it is zero. -/
def scanWhole? (cs : List Char) : Option (List Char × List Char) :=
  match scanDigits? cs with
  | some (ds, rest) => if ds.head? = some '0' ∧ ds.length ≠ 1 then none else some (ds, rest)
  | none => none

/-- What follows the places of a number after a point, if there are any. -/
def scanPlaces? : List Char → Option (List Char)
  | '.' :: cs => (scanDigits? cs).map Prod.snd
  | cs => some cs

/-- What follows the exponent of a number, if there is one. -/
def scanExponent? : List Char → Option (List Char)
  | 'e' :: cs | 'E' :: cs =>
    match cs with
    | '+' :: cs | '-' :: cs => (scanDigits? cs).map Prod.snd
    | cs => (scanDigits? cs).map Prod.snd
  | cs => some cs

/-- A number and what follows it. It is kept if it has neither sign, places nor exponent. -/
def scanNumber : List Char → Option (Option Nat × List Char)
  | '-' :: cs => do
    let (_, cs) ← scanWhole? cs
    let cs ← scanPlaces? cs
    let cs ← scanExponent? cs
    some (none, cs)
  | cs => do
    let (ds, whole) ← scanWhole? cs
    let cs ← scanPlaces? whole
    let cs ← scanExponent? cs
    some (if cs.length = whole.length then some (Nat.ofDigitChars 10 ds 0) else none, cs)

/-! ## Texts of lexemes -/

def isSpace (c : Char) : Bool :=
  c == ' ' || c == '\t' || c == '\n' || c == '\r'

def scanLexeme : List Char → Option (Lexeme × List Char)
  | '\x7b' :: cs => some (.openRecord, cs)
  | '\x7d' :: cs => some (.closeRecord, cs)
  | '[' :: cs => some (.openList, cs)
  | ']' :: cs => some (.closeList, cs)
  | ',' :: cs => some (.comma, cs)
  | ':' :: cs => some (.colon, cs)
  | 'n' :: 'u' :: 'l' :: 'l' :: cs => some (.null, cs)
  | 't' :: 'r' :: 'u' :: 'e' :: cs => some (.bool true, cs)
  | 'f' :: 'a' :: 'l' :: 's' :: 'e' :: cs => some (.bool false, cs)
  | '"' :: cs => (scanText cs).map fun p => (.text ((joinUnits p.1).map String.ofList), p.2)
  | cs => (scanNumber cs).map fun p => (.number p.1, p.2)

/-- At most `fuel` lexemes of a text; blanks around them are passed over. -/
def lexUpTo : Nat → List Char → List Lexeme
  | 0, _ => []
  | fuel + 1, cs =>
    match cs.dropWhile isSpace with
    | [] => []
    | c :: cs =>
      match scanLexeme (c :: cs) with
      | some (lexeme, rest) => lexeme :: lexUpTo fuel rest
      | none => [.unreadable]

/-- The lexemes of a text. Each takes a character, so there are no more than characters. -/
def lex (cs : List Char) : List Lexeme :=
  lexUpTo cs.length cs

end WorkedAlgebra.Json
