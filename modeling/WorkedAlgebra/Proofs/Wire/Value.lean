import WorkedAlgebra.Proofs.Json.Depth
import WorkedAlgebra.Proofs.Loop
import WorkedAlgebra.Proofs.Number.Numeral
import WorkedAlgebra.Proofs.Value.Entries
import WorkedAlgebra.Wire.Value

/-!
# Values are read back

From its lexemes every value is read as it was written. A value nests only so deep, so that a reader
that may open as many levels never refuses it (**`Value.follows`**).
-/

namespace WorkedAlgebra

open Json

theorem parseNumber_fractionText (q : ℚ) : parseNumber (Numeral.fractionText q) = .ok q := by
  unfold parseNumber
  rw [Numeral.number?_fractionText]

namespace DisplayMode

theorem follows (mode : DisplayMode) (depth : ℕ) : Follows depth (read depth) mode.toJson mode := by
  cases mode with
  | fraction =>
    have h : ofKey? "fraction" = some fraction := rfl
    exact .of_reads (.of_readTagged_plain h depth) rfl
  | decimal =>
    have h : ofKey? "decimal" = some decimal := rfl
    exact .of_reads (.of_readTagged_plain h depth) rfl
  | custom t =>
    have h (depth : ℕ) : Follows depth (custom <$> readString) (.text t) (custom t) :=
      (Follows.of_readString t depth).map custom
    exact .of_readTagged rfl rfl h depth

theorem follows_written (mode : DisplayMode) (depth : ℕ) :
    Follows depth (readOption (read depth)) mode.toJson (some mode) :=
  .of_readOption_some (by cases mode <;> nofun) (mode.follows depth)

theorem depth_toJson_le (mode : DisplayMode) : mode.toJson.depth ≤ 1 := by
  cases mode with
  | fraction | decimal => exact Nat.zero_le 1
  | custom t => exact Nat.le_refl 1

end DisplayMode

namespace Scalar

theorem ofText_fractionText (s : Scalar) :
    ofText (Numeral.fractionText s.value) (some s.display) = .ok s := by
  unfold ofText
  rw [parseNumber_fractionText]
  rfl

/-- **A scalar is read back.** -/
theorem follows (s : Scalar) : ∀ depth, Follows depth (read depth) s.toJson s := by
  refine Follows.of_readRecord ⟨some (Numeral.fractionText s.value), some (some s.display)⟩
    (fun depth => .cons rfl rfl ((Follows.of_readString _ _).map _)
      (.cons rfl rfl ((s.display.follows_written depth).map _) (.nil _))) ?_
  exact (Reads.of_required _).bind (.of_readResult s.ofText_fractionText)

theorem depth_toJson_le (s : Scalar) : s.toJson.depth ≤ 2 :=
  depth_record_le_iff.mpr (by simpa [Json.depth] using s.display.depth_toJson_le)

end Scalar

namespace RatMatrix

def rowTexts (m : RatMatrix) : List (List String) :=
  m.grid.toRows.map fun row => row.map Numeral.fractionText

theorem toJson_eq (m : RatMatrix) : m.toJson =
    .record [("rows", .ofList (.ofList .text) m.rowTexts), ("display", m.display.toJson)] := by
  simp [toJson, rowTexts, Json.ofList, Function.comp_def]

theorem ofTexts_rowTexts (m : RatMatrix) : ofTexts m.rowTexts (some m.display) = .ok m := by
  have hnumbers : m.rowTexts.mapM (fun row => row.mapM parseNumber) = .ok m.grid.toRows :=
    mapM_map_eq_ok (mapM_map_eq_ok parseNumber_fractionText) m.grid.toRows
  unfold ofTexts
  rw [hnumbers]
  exact m.ofRows_toRows

/-- **A matrix is read back**, whatever its shape. -/
theorem follows (m : RatMatrix) : ∀ depth, Follows depth (read depth) m.toJson m := by
  have hrows : ∀ depth, Follows depth (Json.readList (Json.readList fun _ => readString) depth)
      (.ofList (.ofList .text) m.rowTexts) m.rowTexts :=
    Follows.of_readList fun depth row _ =>
      Follows.of_readList (fun depth t _ => .of_readString t depth) depth
  rw [toJson_eq]
  refine Follows.of_readRecord ⟨some m.rowTexts, some (some m.display)⟩
    (fun depth => .cons rfl rfl ((hrows depth).map _)
      (.cons rfl rfl ((m.display.follows_written depth).map _) (.nil _))) ?_
  exact (Reads.of_required _).bind (.of_readResult m.ofTexts_rowTexts)

theorem depth_toJson_le (m : RatMatrix) : m.toJson.depth ≤ 3 := by
  have hrows : (Json.ofList (.ofList .text) m.rowTexts).depth ≤ 2 :=
    depth_ofList_le_iff.mpr fun row _ => depth_ofList_le_iff.mpr fun t _ => Nat.zero_le 0
  have hmode := m.display.depth_toJson_le
  rw [toJson_eq, depth_record_le_iff]
  simp only [List.forall_mem_cons]
  exact ⟨hrows, by omega, nofun⟩

end RatMatrix

namespace Value

/-- **A value is read back.** -/
theorem follows (v : Value) : ∀ depth, Follows depth (read depth) v.toJson v := by
  cases v with
  | scalar s => exact Follows.of_readTagged rfl rfl fun depth => (s.follows depth).map scalar
  | matrix m => exact Follows.of_readTagged rfl rfl fun depth => (m.follows depth).map matrix

theorem depth_toJson_le (v : Value) : v.toJson.depth ≤ 4 := by
  cases v with
  | scalar s =>
    have := s.depth_toJson_le
    exact depth_record_le_iff.mpr (by simpa using by omega)
  | matrix m => exact depth_record_le_iff.mpr (by simpa using m.depth_toJson_le)

end Value

end WorkedAlgebra
