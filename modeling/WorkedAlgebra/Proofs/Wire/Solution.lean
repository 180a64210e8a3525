import WorkedAlgebra.Proofs.Wire.Token
import WorkedAlgebra.Wire.Solution

/-!
# Solutions are read back

Work trees nest inside one another without a bound, and so do their texts.

* **`WorkTree.follows`**, `WorkTree.depth_toJson_le` — work trees of every height are read back.
-/

namespace WorkedAlgebra

open Json

/-! ## Steps and solutions -/

namespace Step

theorem follows (s : Step) : ∀ depth, Follows depth (read depth) s.toJson s := by
  refine Follows.of_readRecord ⟨some s.value, s.note.map some⟩ (fun depth => ?_) ?_
  · refine .cons rfl rfl ((s.value.follows depth).map _) ?_
    refine .of_optionalMember (Draft.mk (some s.value)) rfl rfl fun note _ => ?_
    exact (Follows.of_readOption_some (by nofun) (.of_readString note depth)).map _
  · obtain ⟨value, _ | note⟩ := s
    · exact .of_pure _
    · exact .of_pure _

theorem depth_toJson_le (s : Step) : s.toJson.depth ≤ 5 := by
  have hv := s.value.depth_toJson_le
  obtain ⟨value, _ | note⟩ := s
  · exact depth_record_le_iff.mpr (by simpa [optionalMember] using hv)
  · exact depth_record_le_iff.mpr (by simpa [optionalMember, Json.depth] using hv)

theorem depth_value_lt (s : Step) : s.value.toJson.depth < s.toJson.depth :=
  depth_lt_depth_record "value" List.mem_cons_self

end Step

namespace Solution

theorem follows (s : Solution) : ∀ depth, Follows depth (read depth) s.toJson s := by
  have hinputs : ∀ depth, Follows depth (Json.readList Value.read depth)
      (.ofList Value.toJson s.inputs) s.inputs :=
    Follows.of_readList fun depth v _ => v.follows depth
  have hsteps : ∀ depth, Follows depth (Json.readList Step.read depth)
      (.ofList Step.toJson s.steps) s.steps :=
    Follows.of_readList fun depth step _ => step.follows depth
  exact Follows.of_readRecord ⟨some s.operator, some s.inputs, some s.answer, some s.steps⟩
    (fun depth => .cons rfl rfl ((s.operator.follows depth).map _)
      (.cons rfl rfl ((hinputs depth).map _) (.cons rfl rfl ((s.answer.follows depth).map _)
        (.cons rfl rfl ((hsteps depth).map _) (.nil _))))) (.of_pure _)

theorem depth_toJson_le (s : Solution) : s.toJson.depth ≤ 7 := by
  have hinputs : (Json.ofList Value.toJson s.inputs).depth ≤ 5 :=
    depth_ofList_le_iff.mpr fun v _ => v.depth_toJson_le
  have hsteps : (Json.ofList Step.toJson s.steps).depth ≤ 6 :=
    depth_ofList_le_iff.mpr fun step _ => step.depth_toJson_le
  have hanswer := s.answer.depth_toJson_le
  refine depth_record_le_iff.mpr ?_
  simp only [List.forall_mem_cons]
  exact ⟨Nat.zero_le 6, by omega, by omega, by omega, nofun⟩

theorem depth_step_lt {s : Solution} {step : Step} (h : step ∈ s.steps) :
    step.value.toJson.depth + 3 ≤ s.toJson.depth := by
  have hvalue := step.depth_value_lt
  have hstep : step.toJson.depth < (Json.ofList Step.toJson s.steps).depth :=
    depth_lt_depth_list (List.mem_map_of_mem h)
  have hsteps : (Json.ofList Step.toJson s.steps).depth < s.toJson.depth :=
    depth_lt_depth_record "steps" (by simp)
  omega

end Solution

/-! ## Work trees -/

namespace WorkTree

/-- The height of a work tree; a leaf has height zero. -/
def height : WorkTree → ℕ
  | leaf => 0
  | node _ first second => max first.height second.height + 1

theorem isLeaf_of_height_pos {t : WorkTree} (h : 0 < t.height) : t.isLeaf = false := by
  cases t with
  | leaf => cases h
  | node => rfl

/-- A work tree below an operation, where a leaf is left out. -/
def written (t : WorkTree) : Option WorkTree :=
  if t.isLeaf then none else some t

theorem getD_written (t : WorkTree) : (t.written.map some).join.getD leaf = t := by
  cases t <;> rfl

theorem isLeaf_of_mem_written {t u : WorkTree} (h : u ∈ t.written) : u = t ∧ u.isLeaf = false := by
  cases t with
  | leaf => cases h
  | node =>
    cases h
    exact ⟨rfl, rfl⟩

theorem toJson_node (s : Solution) (first second : WorkTree) :
    (node s first second).toJson = .record (("solution", s.toJson) ::
      (optionalMember "first" toJson first.written ++
        optionalMember "second" toJson second.written)) := by
  cases first <;> cases second <;> rfl

theorem toJson_ne_null {t : WorkTree} (h : t.isLeaf = false) : t.toJson ≠ .null := by
  cases t with
  | leaf => cases h
  | node => nofun

theorem read_eq :
    read = readRecord (fun depth => slots depth (read depth)) ⟨none, none, none⟩ (fun d => do
      pure (.node (← required d.solution) (d.first.join.getD leaf)
        (d.second.join.getD leaf))) := by
  funext depth
  cases depth <;> rfl

theorem follows_written {t : WorkTree}
    (h : t.isLeaf = false → ∀ depth, Follows depth (read depth) t.toJson t) (depth : ℕ) :
    ∀ u ∈ t.written, Follows depth (readOption (read depth)) u.toJson (some u) := by
  intro u hu
  obtain ⟨rfl, hleaf⟩ := isLeaf_of_mem_written hu
  exact .of_readOption_some (toJson_ne_null hleaf) (h hleaf depth)

/-- **A work tree is read back**, whatever its height, if the levels suffice. -/
theorem follows {t : WorkTree} (h : t.isLeaf = false) :
    ∀ depth, Follows depth (read depth) t.toJson t := by
  induction t with
  | leaf => cases h
  | node s first second ih₁ ih₂ =>
    rw [read_eq, toJson_node]
    refine Follows.of_readRecord
      ⟨some s, first.written.map some, second.written.map some⟩ (fun depth => ?_) ?_
    · refine .cons rfl rfl ((s.follows depth).map _)
        (.append ⟨some s, first.written.map some, none⟩ ?_ ?_)
      · refine .of_optionalMember (Draft.mk (some s) · none) rfl rfl fun u hu => ?_
        exact (follows_written ih₁ depth u hu).map _
      · refine .of_optionalMember (Draft.mk (some s) (first.written.map some)) rfl rfl ?_
        exact fun u hu => (follows_written ih₂ depth u hu).map _
    · have hmake : Reads (pure (.node s ((first.written.map some).join.getD leaf)
          ((second.written.map some).join.getD leaf))) [] (WorkTree.node s first second) := by
        rw [getD_written, getD_written]
        exact .of_pure _
      exact hmake

theorem depth_toJson_le (t : WorkTree) : t.toJson.depth ≤ t.height + 7 := by
  induction t with
  | leaf => exact Nat.zero_le _
  | node s first second ih₁ ih₂ =>
    have hs := s.depth_toJson_le
    rw [height, Nat.add_right_comm, toJson, depth_record_le_iff]
    have hfirst : first.toJson.depth ≤ max first.height second.height + 7 := by omega
    have hsecond : second.toJson.depth ≤ max first.height second.height + 7 := by omega
    cases h₁ : first.isLeaf <;> cases h₂ : second.isLeaf <;> simp [hfirst, hsecond] <;> omega

theorem height_lt_of_operand {t : WorkTree} {n d : ℕ} (hn : n < d)
    (h : t.isLeaf = false → t.height + n ≤ t.toJson.depth ∧ t.toJson.depth < d) :
    t.height + n < d := by
  cases t with
  | leaf => simpa [height] using hn
  | node => exact Nat.lt_of_le_of_lt (h rfl).1 (h rfl).2

theorem height_le_depth_toJson {t : WorkTree} {n : ℕ} (h : t.isLeaf = false)
    (hs : ∀ s ∈ t.solutions, n ≤ s.toJson.depth) : t.height + n ≤ t.toJson.depth := by
  induction t with
  | leaf => cases h
  | node s first second ih₁ ih₂ =>
    have hsolution : s.toJson.depth < (node s first second).toJson.depth :=
      depth_lt_depth_record "solution" (by simp)
    have hn := Nat.lt_of_le_of_lt (hs s (by simp [solutions])) hsolution
    have hfirst : first.height + n < (node s first second).toJson.depth :=
      height_lt_of_operand hn fun hl => ⟨ih₁ hl fun s hs' => hs s (by simp [solutions, hs']),
        depth_lt_depth_record "first" (by simp [hl])⟩
    have hsecond : second.height + n < (node s first second).toJson.depth :=
      height_lt_of_operand hn fun hl => ⟨ih₂ hl fun s hs' => hs s (by simp [solutions, hs']),
        depth_lt_depth_record "second" (by simp [hl])⟩
    rw [height]
    omega

end WorkTree
end WorkedAlgebra
