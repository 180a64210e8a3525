import WorkedAlgebra.Json.Basic
import WorkedAlgebra.Json.Record
import WorkedAlgebra.Value.Basic

/-!
# Values as JSON

Numbers travel as texts, so that they stay exact. A scalar is a record of its number text and its
display mode, a matrix one of its rows of number texts and its display mode; when the mode is left
out the number texts decide.
-/

namespace WorkedAlgebra

open Json

namespace DisplayMode

def ofKey? (key : String) : Option DisplayMode :=
  if key = "fraction" then some fraction
  else if key = "decimal" then some decimal
  else none

def toJson : DisplayMode → Json
  | fraction => .text "fraction"
  | decimal => .text "decimal"
  | custom t => .record [("custom", .text t)]

def read : Reader DisplayMode :=
  readTagged ofKey? fun key =>
    if key = "custom" then some fun _ => custom <$> readString else none

end DisplayMode

namespace Scalar

def toJson (s : Scalar) : Json :=
  .record [("value", .text (Numeral.fractionText s.value)), ("display", s.display.toJson)]

structure Draft where
  value : Option String
  display : Option (Option DisplayMode)

def slots (depth : Nat) : List (Slot Draft) :=
  [needed "value" Draft.value (fun d v => { d with value := some v }) readString,
    spare "display" Draft.display (fun d v => { d with display := some v })
      (readOption (DisplayMode.read depth))]

def read : Reader Scalar :=
  readRecord slots ⟨none, none⟩ fun d => do
    readResult (ofText (← required d.value) d.display.join)

end Scalar

namespace RatMatrix

def toJson (m : RatMatrix) : Json :=
  .record
    [("rows", .ofList (.ofList fun q => .text (Numeral.fractionText q)) m.grid.toRows),
      ("display", m.display.toJson)]

structure Draft where
  rows : Option (List (List String))
  display : Option (Option DisplayMode)

def slots (depth : Nat) : List (Slot Draft) :=
  [needed "rows" Draft.rows (fun d v => { d with rows := some v })
      (readList (readList fun _ => readString) depth),
    spare "display" Draft.display (fun d v => { d with display := some v })
      (readOption (DisplayMode.read depth))]

def read : Reader RatMatrix :=
  readRecord slots ⟨none, none⟩ fun d => do
    readResult (ofTexts (← required d.rows) d.display.join)

end RatMatrix

namespace ValueKind

def ofKey? (key : String) : Option ValueKind :=
  [scalar, matrix].find? fun kind => kind.name == key

def toJson (kind : ValueKind) : Json :=
  .text kind.name

def read : Reader ValueKind :=
  readName ofKey?

end ValueKind

namespace Value

def toJson : Value → Json
  | scalar s => .record [("scalar", s.toJson)]
  | matrix m => .record [("matrix", m.toJson)]

def read : Reader Value :=
  readTagged (fun _ => none) fun key =>
    if key = "scalar" then some fun depth => scalar <$> Scalar.read depth
    else if key = "matrix" then some fun depth => matrix <$> RatMatrix.read depth
    else none

end Value
end WorkedAlgebra
