import WorkedAlgebra.Proofs.Wire.Solution
import WorkedAlgebra.Wire.Outcome

/-!
# Outcomes are read back

* **`Outcome.follows`**: outcomes are read back, if the levels suffice.
-/

namespace WorkedAlgebra

open Json

theorem follows_word (n : UInt64) (depth : ℕ) : Follows depth readWord (wordToJson n) n := by
  have h := (Reads.of_readNat n.toNat_lt).map UInt64.ofNat
  rw [UInt64.ofNat_toNat] at h
  exact .of_reads h rfl

theorem follows_optional_word (n : UInt64) (depth : ℕ) :
    Follows depth (readOption readWord) (wordToJson n) (some n) :=
  .of_readOption_some (by nofun) (follows_word n depth)

namespace Limits

theorem follows (limits : Limits) : ∀ depth, Follows depth (read depth) limits.toJson limits := by
  refine Follows.of_readRecord (limits.maxTokens.map some) (fun depth => ?_) ?_
  · refine .of_optionalMember id rfl rfl fun n _ => ?_
    exact (follows_optional_word n depth).map _
  · obtain ⟨_ | limit⟩ := limits
    · exact .of_pure _
    · exact .of_pure _

theorem depth_toJson_le (limits : Limits) : limits.toJson.depth ≤ 1 := by
  obtain ⟨_ | limit⟩ := limits <;> exact Nat.le_refl 1

/-- **The text of limits is read back.** -/
theorem readText_toJson (limits : Limits) : readText read limits.toJson.render = .ok limits := by
  rw [(limits.follows nestingLimit).readText_render,
    if_pos (limits.depth_toJson_le.trans (by decide))]

end Limits

namespace Report

theorem follows (r : Report) : ∀ depth, Follows depth (read depth) r.toJson r := by
  have hcode : ∀ depth, Follows depth (UInt16.ofNat <$> readNat UInt16.size) (.number r.code.toNat)
      r.code := by
    have h := (Reads.of_readNat r.code.toNat_lt).map UInt16.ofNat
    rw [UInt16.ofNat_toNat] at h
    exact fun depth => .of_reads h rfl
  have hkind : ∀ depth, Follows depth (readName ErrorKind.ofKey? depth) (.text r.kind.key) r.kind :=
    fun depth => .of_reads (.of_readTagged_plain r.kind.ofKey?_key depth) rfl
  refine Follows.of_readRecord ⟨some r.code, some r.kind, some r.message, r.position.map some,
    r.operator.map some⟩ (fun depth => ?_) ?_
  · refine .cons rfl rfl ((hcode depth).map _) (.cons rfl rfl ((hkind depth).map _)
      (.cons rfl rfl ((Follows.of_readString _ depth).map _) (.append
        ⟨some r.code, some r.kind, some r.message, r.position.map some, none⟩ ?_ ?_)))
    · refine .of_optionalMember (Draft.mk (some r.code) (some r.kind) (some r.message) · none)
        rfl rfl fun n _ => ?_
      exact (follows_optional_word n depth).map _
    · refine .of_optionalMember
        (Draft.mk (some r.code) (some r.kind) (some r.message) (r.position.map some))
        rfl rfl fun op _ => ?_
      exact (Follows.of_readOption_some (by nofun) (op.follows depth)).map _
  · obtain ⟨code, kind, message, _ | position, _ | op⟩ := r <;> exact .of_pure _

theorem depth_toJson_le (r : Report) : r.toJson.depth ≤ 1 := by
  obtain ⟨code, kind, message, _ | position, _ | op⟩ := r <;> exact Nat.le_refl 1

end Report

namespace Outcome

theorem follows_tree (t : WorkTree) (depth : ℕ) :
    Follows depth (readOption (WorkTree.read depth)) t.toJson t.written := by
  cases h : t.isLeaf with
  | true =>
    cases t with
    | leaf => exact .of_readOption_none _ depth
    | node => cases h
  | false =>
    have hw : t.written = some t := by
      rw [WorkTree.written, h]
      rfl
    rw [hw]
    exact .of_readOption_some (WorkTree.toJson_ne_null h) (t.follows h depth)

/-- **An outcome is read back**, if the levels suffice. -/
theorem follows (o : Outcome) : ∀ depth, Follows depth (read depth) o.toJson o := by
  have hsuccess : ∀ depth, Follows depth readBool (.bool o.success) o.success :=
    fun depth => .of_reads (fun _ => rfl) rfl
  have hanswer : ∀ depth, Follows depth (readOption (Value.read depth))
      (.ofOption Value.toJson o.answer) o.answer := fun depth =>
    .of_readOption (fun v => by cases v <;> nofun) fun v _ => v.follows depth
  have htrace : ∀ depth, Follows depth (readList Step.read depth) (.ofList Step.toJson o.trace)
      o.trace := Follows.of_readList fun depth s _ => s.follows depth
  have herror : ∀ depth, Follows depth (readOption (Report.read depth))
      (.ofOption Report.toJson o.error) o.error := fun depth =>
    .of_readOption (fun r => nofun) fun r _ => r.follows depth
  refine Follows.of_readRecord ⟨some o.success, some o.answer, some o.tree.written, some o.trace,
    some o.error⟩ (fun depth => ?_) ?_
  · exact .cons rfl rfl ((hsuccess depth).map _) (.cons rfl rfl ((hanswer depth).map _)
      (.cons rfl rfl ((follows_tree o.tree depth).map _) (.cons rfl rfl ((htrace depth).map _)
        (.cons rfl rfl ((herror depth).map _) (.nil _)))))
  · obtain ⟨success, answer, tree, trace, error⟩ := o
    cases tree <;> exact .of_pure _

theorem depth_toJson_le (o : Outcome) : o.toJson.depth ≤ o.tree.height + 8 := by
  have htree := o.tree.depth_toJson_le
  have hanswer : (Json.ofOption Value.toJson o.answer).depth ≤ 4 := by
    cases o.answer with
    | none => exact Nat.zero_le 4
    | some v => exact v.depth_toJson_le
  have htrace : (Json.ofList Step.toJson o.trace).depth ≤ 6 :=
    depth_ofList_le_iff.mpr fun s _ => s.depth_toJson_le
  have herror : (Json.ofOption Report.toJson o.error).depth ≤ 1 := by
    cases o.error with
    | none => exact Nat.zero_le 1
    | some r => exact r.depth_toJson_le
  refine depth_record_le_iff.mpr ?_
  simp only [List.forall_mem_cons]
  exact ⟨Nat.zero_le _, by omega, htree, by omega, by omega, nofun⟩

theorem depth_tree_lt (o : Outcome) : o.tree.toJson.depth < o.toJson.depth :=
  depth_lt_depth_record "tree" (by simp)

end Outcome
end WorkedAlgebra
