import WorkedAlgebra.Json.Lexeme

/-!
# JSON values

The values that this library writes, in which numbers are natural and the members of a record have
an order.
-/

namespace WorkedAlgebra

inductive Json
  | null
  | bool (b : Bool)
  | number (n : Nat)
  | text (s : String)
  | list (items : List Json)
  | record (members : List (String × Json))
deriving Repr

namespace Json

mutual

def lexemes : Json → List Lexeme
  | null => [.null]
  | bool b => [.bool b]
  | number n => [.number (some n)]
  | text s => [.text (some s)]
  | list items => .openList :: (itemLexemes items ++ [.closeList])
  | record members => .openRecord :: (memberLexemes members ++ [.closeRecord])

/-- The items of a list with commas between them. -/
def itemLexemes : List Json → List Lexeme
  | [] => []
  | [item] => item.lexemes
  | item :: next :: items => item.lexemes ++ .comma :: itemLexemes (next :: items)

def memberLexemes : List (String × Json) → List Lexeme
  | [] => []
  | [(key, value)] => .text (some key) :: .colon :: value.lexemes
  | (key, value) :: next :: members =>
    .text (some key) :: .colon :: (value.lexemes ++ .comma :: memberLexemes (next :: members))

end

def render (j : Json) : String :=
  String.ofList (j.lexemes.flatMap Lexeme.chars)

def ofList {α : Type} (write : α → Json) (items : List α) : Json :=
  list (items.map write)

def ofOption {α : Type} (write : α → Json) : Option α → Json
  | some a => write a
  | none => null

/-- A member that is left out when it is absent. -/
def optionalMember {α : Type} (key : String) (write : α → Json) (value : Option α) :
    List (String × Json) :=
  value.toList.map fun a => (key, write a)

end Json
end WorkedAlgebra
