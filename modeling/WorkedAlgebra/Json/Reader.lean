import WorkedAlgebra.Json.Lexer
import WorkedAlgebra.Value.Fault

/-!
# Reading JSON

Readers take what they need from a list of lexemes, from left to right, so that the first defect in
reading order is the one reported. Lists and records nest to a bounded depth.
-/

namespace WorkedAlgebra

/-- Why a text cannot be read. -/
inductive ReadFault
  /-- It is no JSON, or not of the expected form. -/
  | malformed
  | value (fault : ValueFault)
deriving DecidableEq, Repr

/-- The wording of a value that cannot be made, where that is the reason. -/
def ReadFault.valueFault? : ReadFault → Option ValueFault
  | malformed => none
  | value fault => some fault

namespace Json

/-- What is read from a list of lexemes. -/
abbrev Reading := StateT (List Lexeme) (Except ReadFault)

/-- A reader of values inside which so many levels may be opened. -/
abbrev Reader (α : Type) := Nat → Reading α

variable {α : Type}

def malformed : Reading α :=
  throw .malformed

def next : Reading Lexeme := do
  match ← get with
  | [] => malformed
  | lexeme :: rest => set rest; pure lexeme

def expect (lexeme : Lexeme) : Reading Unit := do
  if (← next) = lexeme then pure () else malformed

/-- Whether the given lexeme comes next, in which case it is taken. -/
def accept (lexeme : Lexeme) : Reading Bool := do
  match ← get with
  | [] => pure false
  | head :: rest => if head = lexeme then set rest; pure true else pure false

/-- A value that was made or not. -/
def readResult (result : Except ValueFault α) : Reading α :=
  match result with
  | .ok a => pure a
  | .error fault => throw (.value fault)

/-! ## Values passed over -/

/-- What may come next inside a value that is passed over. -/
inductive Expecting
  | value
  | itemOrEnd
  | keyOrEnd
  | key
  | colon
  | commaOrEnd
deriving DecidableEq, Repr

/-- What is expected after a lexeme that is passed over. The list says of each open bracket, the
innermost first, whether it opened a record. -/
def skipStep (opened : List Bool) : Expecting → Lexeme → Option (Expecting × List Bool)
  | .value, .openList | .itemOrEnd, .openList => some (.itemOrEnd, false :: opened)
  | .value, .openRecord | .itemOrEnd, .openRecord => some (.keyOrEnd, true :: opened)
  | .value, .null | .value, .bool _ | .value, .number _ | .value, .text _
  | .itemOrEnd, .null | .itemOrEnd, .bool _ | .itemOrEnd, .number _ | .itemOrEnd, .text _ =>
    some (.commaOrEnd, opened)
  | .itemOrEnd, .closeList | .keyOrEnd, .closeRecord => some (.commaOrEnd, opened.tail)
  | .keyOrEnd, .text _ | .key, .text _ => some (.colon, opened)
  | .colon, .colon => some (.value, opened)
  | .commaOrEnd, .comma => opened.head?.map fun inRecord =>
    (if inRecord then .key else .value, opened)
  | .commaOrEnd, .closeList => if opened.head? = some false then some (.commaOrEnd, opened.tail)
    else none
  | .commaOrEnd, .closeRecord => if opened.head? = some true then some (.commaOrEnd, opened.tail)
    else none
  | _, _ => none

/-- What follows a value that is passed over from somewhere inside it. -/
def skipFrom (expecting : Expecting) (opened : List Bool) : List Lexeme → Option (List Lexeme)
  | [] => none
  | lexeme :: rest =>
    match skipStep opened expecting lexeme with
    | none => none
    | some (.commaOrEnd, []) => some rest
    | some (expecting, opened) => skipFrom expecting opened rest

/-- A value of any form and any depth, passed over. -/
def skip : Reading Unit := do
  match skipFrom .value [] (← get) with
  | some rest => set rest
  | none => malformed

/-! ## Simple values -/

def readString : Reading String := do
  match ← next with
  | .text (some s) => pure s
  | _ => malformed

/-- A natural number below a bound. -/
def readNat (bound : Nat) : Reading Nat := do
  match ← next with
  | .number (some n) => if n < bound then pure n else malformed
  | _ => malformed

def readBool : Reading Bool := do
  match ← next with
  | .bool b => pure b
  | _ => malformed

def readOption (read : Reading α) : Reading (Option α) := do
  if ← accept .null then pure none else some <$> read

/-! ## Composite values -/

/-- The items of a list after its first one. No more are left than `fuel`. -/
def readItems (item : Reading α) : Nat → Reading (List α)
  | 0 => malformed
  | fuel + 1 => do
    if ← accept .comma then
      let a ← item
      let others ← readItems item fuel
      pure (a :: others)
    else
      expect .closeList
      pure []

/-- A list. Every item takes a lexeme, so there are no more than lexemes. -/
def readList (item : Reader α) : Reader (List α)
  | 0 => malformed
  | depth + 1 => do
    expect .openList
    if ← accept .closeList then pure []
    else
      let a ← item depth
      let others ← readItems (item depth) (← get).length
      pure (a :: others)

/-- One of several alternatives: the name of a plain one, or a record with one member, whose key
names the alternative. A plain alternative has the content `null`. -/
def readTagged (plain : String → Option α) (content : String → Option (Reader α)) :
    Reader α := fun depth => do
  match ← next, depth with
  | .text (some key), _ =>
    match plain key with
    | some a => pure a
    | none => malformed
  | .openRecord, depth + 1 => do
    let key ← readString
    expect .colon
    let a ← match plain key, content key with
      | some a, _ => do expect .null; pure a
      | none, some read => read depth
      | none, none => malformed
    expect .closeRecord
    pure a
  | _, _ => malformed

def readName (ofKey? : String → Option α) : Reader α :=
  readTagged ofKey? fun _ => none

/-! ## Whole texts -/

def nestingLimit : Nat := 127

def readAll (read : Reader α) (depth : Nat) (lexemes : List Lexeme) : Except ReadFault α :=
  match (read depth).run lexemes with
  | .ok (a, []) => .ok a
  | .ok (_, _ :: _) => .error .malformed
  | .error fault => .error fault

def readText (read : Reader α) (text : String) : Except ReadFault α :=
  readAll read nestingLimit (lex text.toList)

end Json
end WorkedAlgebra
