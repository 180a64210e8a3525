/-!
# JSON lexemes

The lexical level of JSON: brackets, commas, colons, words, numbers and texts.
-/

namespace WorkedAlgebra.Json

inductive Lexeme
  | openRecord
  | closeRecord
  | openList
  | closeList
  | comma
  | colon
  | null
  | bool (b : Bool)
  /-- A number; it is kept if it is written as a natural number. -/
  | number (n : Option Nat)
  /-- A text; it is kept unless an escape in it stands for half a character. -/
  | text (s : Option String)
  /-- Characters that form no lexeme. -/
  | unreadable
deriving DecidableEq, Repr

def hexDigit (n : Nat) : Char :=
  Nat.digitChar n

/-- A character inside quotes. Quotes, backslashes and control characters are escaped. -/
def escapeChar (c : Char) : List Char :=
  if c = '"' then ['\\', '"']
  else if c = '\\' then ['\\', '\\']
  else if 0x20 ≤ c.toNat then [c]
  else if c.toNat = 0x08 then ['\\', 'b']
  else if c = '\t' then ['\\', 't']
  else if c = '\n' then ['\\', 'n']
  else if c.toNat = 0x0C then ['\\', 'f']
  else if c = '\r' then ['\\', 'r']
  else ['\\', 'u', '0', '0', hexDigit (c.toNat / 16), hexDigit (c.toNat % 16)]

/-- The characters of a text between its quotes. -/
def escape (cs : List Char) : List Char :=
  cs.flatMap escapeChar

/-- The characters of a lexeme. One whose content was not kept has none. -/
def Lexeme.chars : Lexeme → List Char
  | openRecord => ['\x7b']
  | closeRecord => ['\x7d']
  | openList => ['[']
  | closeList => [']']
  | comma => [',']
  | colon => [':']
  | null => ['n', 'u', 'l', 'l']
  | bool true => ['t', 'r', 'u', 'e']
  | bool false => ['f', 'a', 'l', 's', 'e']
  | number (some n) => Nat.toDigits 10 n
  | text (some s) => '"' :: (escape s.toList ++ ['"'])
  | number none | text none | unreadable => []

end WorkedAlgebra.Json
