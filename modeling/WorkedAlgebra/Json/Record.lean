import WorkedAlgebra.Json.Reader

/-!
# Reading records

A record is read as its members in any order, or as the list of its members in their own order.
Unknown members are passed over and a repeated member is a defect.
-/

namespace WorkedAlgebra.Json

variable {α σ τ : Type}

/-- A member of a record, inside which so many levels may be opened, for drafts of type `σ`. -/
structure Slot (σ : Type) where
  key : String
  filled : σ → Bool
  fill : σ → Reading σ
  /-- Whether a list of members may end before this one. -/
  mayEnd : Bool

/-- The slot of a member that a list of members has to contain. -/
def needed (key : String) (get : σ → Option τ) (put : σ → τ → σ) (read : Reading τ) : Slot σ :=
  ⟨key, fun s => (get s).isSome, fun s => put s <$> read, false⟩

/-- The slot of a member that a list of members may leave out, if it leaves out all later ones. -/
def spare (key : String) (get : σ → Option τ) (put : σ → τ → σ) (read : Reading τ) : Slot σ :=
  { needed key get put read with mayEnd := true }

/-- The members of a record after its opening bracket or a comma, at most `fuel` of them. -/
def readMembers (slots : List (Slot σ)) : Nat → σ → Reading σ
  | 0, _ => malformed
  | fuel + 1, draft => do
    let key ← readString
    expect .colon
    let draft ← match slots.find? fun slot => slot.key == key with
      | some slot => if slot.filled draft then malformed else slot.fill draft
      | none => do skip; pure draft
    if ← accept .comma then readMembers slots fuel draft
    else
      expect .closeRecord
      pure draft

/-- The members of a record in their own order, after the first one or more of them. -/
def readPositions : List (Slot σ) → σ → Reading σ
  | [], draft => do
    expect .closeList
    pure draft
  | slot :: slots, draft => do
    if ← accept .comma then
      readPositions slots (← slot.fill draft)
    else
      expect .closeList
      if (slot :: slots).all Slot.mayEnd then pure draft else malformed

/-- The members of a record in their own order, after the opening bracket of their list. -/
def readFirstPosition (slots : List (Slot σ)) (draft : σ) : Reading σ := do
  if ← accept .closeList then
    if slots.all Slot.mayEnd then pure draft else malformed
  else
    match slots with
    | [] => malformed
    | slot :: slots => readPositions slots (← slot.fill draft)

/-- A draft of a record, filled from its members or from their list. -/
def readDraft (slots : List (Slot σ)) (draft : σ) : Reading σ := do
  match ← next with
  | .openRecord =>
    if ← accept .closeRecord then pure draft
    else readMembers slots (← get).length draft
  | .openList => readFirstPosition slots draft
  | _ => malformed

/-- A record, made from a draft once all of it has been read. -/
def readRecord (slots : Nat → List (Slot σ)) (draft : σ) (make : σ → Reading α) : Reader α
  | 0 => malformed
  | depth + 1 => do make (← readDraft (slots depth) draft)

def required (member : Option τ) : Reading τ :=
  match member with
  | some t => pure t
  | none => malformed

end WorkedAlgebra.Json
