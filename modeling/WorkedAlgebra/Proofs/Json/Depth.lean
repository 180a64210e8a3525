import WorkedAlgebra.Proofs.Json.Record

/-!
# How deep values nest

A reader may open only so many levels. It reads a written value that opens no more, and refuses any
other as soon as it meets the first level too many.

* **`Follows.readText_render`**: whether a value is read from its text is decided by its depth.
-/

namespace WorkedAlgebra.Json

variable {α β σ : Type}

/-! ## Depth -/

mutual

/-- How many lists and records of a value stand inside one another. -/
def depth : Json → ℕ
  | list items => itemsDepth items + 1
  | record members => membersDepth members + 1
  | null | bool _ | number _ | text _ => 0

def itemsDepth : List Json → ℕ
  | [] => 0
  | item :: items => max item.depth (itemsDepth items)

def membersDepth : List (String × Json) → ℕ
  | [] => 0
  | (_, value) :: members => max value.depth (membersDepth members)

end

theorem itemsDepth_le_iff {items : List Json} {n : ℕ} :
    itemsDepth items ≤ n ↔ ∀ j ∈ items, j.depth ≤ n := by
  induction items with
  | nil => simp [itemsDepth]
  | cons j items ih => simp [itemsDepth, ih]

theorem membersDepth_le_iff {members : List (String × Json)} {n : ℕ} :
    membersDepth members ≤ n ↔ ∀ m ∈ members, m.2.depth ≤ n := by
  induction members with
  | nil => simp [membersDepth]
  | cons m members ih => simp [membersDepth, ih]

theorem depth_ofList_le_iff {write : α → Json} {as : List α} {n : ℕ} :
    (Json.ofList write as).depth ≤ n + 1 ↔ ∀ a ∈ as, (write a).depth ≤ n := by
  simp [Json.ofList, depth, itemsDepth_le_iff]

theorem depth_record_le_iff {members : List (String × Json)} {n : ℕ} :
    (record members).depth ≤ n + 1 ↔ ∀ m ∈ members, m.2.depth ≤ n := by
  simp [depth, membersDepth_le_iff]

theorem depth_lt_depth_list {j : Json} {items : List Json} (h : j ∈ items) :
    j.depth < (list items).depth :=
  Nat.lt_succ_of_le (itemsDepth_le_iff.mp (Nat.le_refl _) j h)

theorem depth_lt_depth_record (key : String) {j : Json} {members : List (String × Json)}
    (h : (key, j) ∈ members) : j.depth < (record members).depth :=
  Nat.lt_succ_of_le (membersDepth_le_iff.mp (Nat.le_refl _) _ h)

/-! ## Refusals -/

/-- A reader **refuses** lexemes: what it meets among them is not of the form it expects. -/
def Refuses (read : Reading α) (ls : List Lexeme) : Prop :=
  ∀ rest, read.run (ls ++ rest) = .error .malformed

namespace Refuses

variable {x y : Reading α} {f : α → Reading β} {ls ms : List Lexeme} {a : α} {l m : Lexeme}

theorem of_malformed (ls : List Lexeme) : Refuses (malformed : Reading α) ls := fun _ => rfl

theorem append (hx : Refuses x ls) (ms : List Lexeme) : Refuses x (ls ++ ms) := by
  intro rest
  rw [List.append_assoc]
  exact hx _

theorem bind (hx : Refuses x ls) (f : α → Reading β) : Refuses (x >>= f) ls := by
  intro rest
  rw [StateT.run_bind, hx]
  rfl

theorem map (hx : Refuses x ls) (g : α → β) : Refuses (g <$> x) ls := by
  intro rest
  rw [StateT.run_map, hx]
  rfl

theorem after (hx : Reads x ls a) (hf : Refuses (f a) ms) : Refuses (x >>= f) (ls ++ ms) := by
  intro rest
  rw [StateT.run_bind, List.append_assoc, hx]
  exact hf rest

theorem accepting (h : Refuses x ls) : Refuses (do if ← accept l then x else y) (l :: ls) :=
  after (f := fun b => if b = true then x else y) (.of_accept l) h

theorem refusing (hne : m ≠ l) (h : Refuses y (m :: ls)) :
    Refuses (do if ← accept l then x else y) (m :: ls) := by
  intro rest
  rw [List.cons_append, run_accept_of_ne hne]
  exact h rest

theorem of_length {f : ℕ → Reading α} (h : ∀ n, Refuses (f n) ls) :
    Refuses (do f (← get).length) ls := by
  intro rest
  exact h (ls ++ rest).length rest

end Refuses

/-- A reader **follows** a value: it reads it if it opens at most `depth` levels, else refuses
it. -/
structure Follows (depth : ℕ) (read : Reading α) (j : Json) (a : α) : Prop where
  reads : j.depth ≤ depth → Reads read j.lexemes a
  refuses : depth < j.depth → Refuses read j.lexemes

namespace Follows

variable {x : Reading α} {j : Json} {a : α} {depth : ℕ}

theorem of_reads (h : Reads x j.lexemes a) (hj : j.depth = 0) : Follows depth x j a :=
  ⟨fun _ => h, fun hd => absurd hd (by omega)⟩

theorem map (g : α → β) (h : Follows depth x j a) : Follows depth (g <$> x) j (g a) :=
  ⟨fun hd => (h.reads hd).map g, fun hd => (h.refuses hd).map g⟩

theorem of_readString (s : String) (depth : ℕ) : Follows depth readString (.text s) s :=
  of_reads (.of_readString s) rfl

/-! ## Values that may be absent -/

theorem of_readOption_some (hj : j ≠ .null) (h : Follows depth x j a) :
    Follows depth (readOption x) j (some a) := by
  refine ⟨fun hd => .of_readOption hj (h.reads hd), fun hd => ?_⟩
  obtain ⟨l, ls, hl, -, hnull⟩ := exists_lexemes_cons j
  have hx := h.refuses hd
  rw [hl] at hx ⊢
  exact .refusing (fun h => hj (hnull h)) (hx.map some)

theorem of_readOption_none (x : Reading α) (depth : ℕ) : Follows depth (readOption x) .null none :=
  of_reads (.accepting (.of_pure none)) rfl

theorem of_readOption {write : β → Json} {x : Reading β} {o : Option β} (hne : ∀ b, write b ≠ .null)
    (h : ∀ b ∈ o, Follows depth x (write b) b) :
    Follows depth (readOption x) (Json.ofOption write o) o := by
  cases o with
  | none => exact of_readOption_none x depth
  | some b => exact of_readOption_some (hne b) (h b rfl)

/-! ## Lists -/

section Lists

variable {write : α → Json} {item : Reading α} {as : List α}

theorem refuses_readItems (h : ∀ a ∈ as, Follows depth item (write a) a)
    (hd : depth < itemsDepth (as.map write)) (fuel : ℕ) (rest : List Lexeme) :
    Refuses (readItems item fuel) (laterItems (as.map write) ++ rest) := by
  induction as generalizing fuel with
  | nil => exact absurd hd (by simp [itemsDepth])
  | cons a as ih =>
    cases fuel with
    | zero => exact .of_malformed _
    | succ fuel =>
      rw [List.map_cons, laterItems_cons, List.cons_append, List.append_assoc]
      refine .accepting ?_
      have ha := h a List.mem_cons_self
      by_cases hfirst : depth < (write a).depth
      · exact ((ha.refuses hfirst).bind _).append _
      · have hlater : depth < itemsDepth (as.map write) := by
          simp only [List.map_cons, itemsDepth] at hd
          omega
        exact .after (ha.reads (by omega))
          ((ih (fun b hb => h b (List.mem_cons_of_mem _ hb)) hlater fuel).bind _)

/-- **A list is followed if its items are.** -/
theorem of_readList {read : Reader α}
    (h : ∀ depth, ∀ a ∈ as, Follows depth (read depth) (write a) a)
    (depth : ℕ) : Follows depth (readList read depth) (Json.ofList write as) as := by
  cases depth with
  | zero =>
    exact ⟨fun hd => absurd hd (by simp [Json.ofList, Json.depth]), fun _ => .of_malformed _⟩
  | succ depth =>
    refine ⟨fun hd => .of_readList fun a ha =>
      (h depth a ha).reads (depth_ofList_le_iff.mp hd a ha), fun hd => ?_⟩
    change Refuses _ ([.openList] ++ (itemLexemes (as.map write) ++ [.closeList]))
    refine .after (.of_expect .openList) ?_
    cases as with
    | nil => exact absurd hd (by simp [Json.ofList, Json.depth, itemsDepth])
    | cons a as =>
      obtain ⟨l, ls, hl, hne, -⟩ := exists_lexemes_cons (write a)
      have ha := h depth a List.mem_cons_self
      have hitems : Refuses (do
          let a ← read depth
          let others ← (do readItems (read depth) (← get).length)
          pure (a :: others))
          ((write a).lexemes ++ (laterItems (as.map write) ++ [.closeList])) := by
        by_cases hfirst : depth < (write a).depth
        · exact ((ha.refuses hfirst).bind _).append _
        · have hlater : depth < itemsDepth (as.map write) := by
            simp only [Json.ofList, Json.depth, List.map_cons, itemsDepth] at hd
            omega
          refine .after (ha.reads (by omega)) (.bind (.of_length fun n => ?_) _)
          exact refuses_readItems (fun b hb => h depth b (List.mem_cons_of_mem _ hb)) hlater n _
      -- the first item does not start with the closing bracket
      rw [List.map_cons, itemLexemes_cons, List.append_assoc]
      rw [hl] at hitems ⊢
      exact .refusing hne hitems

end Lists

/-! ## Alternatives -/

/-- **An alternative is followed if its content is.** -/
theorem of_readTagged {plain : String → Option α} {content : String → Option (Reader α)}
    {key : String} {read : Reader α} (hp : plain key = none) (hc : content key = some read)
    (h : ∀ depth, Follows depth (read depth) j a) (depth : ℕ) :
    Follows depth (readTagged plain content depth) (.record [(key, j)]) a := by
  cases depth with
  | zero => exact ⟨fun hd => absurd hd (by simp [Json.depth]), fun _ _ => rfl⟩
  | succ depth =>
    refine ⟨fun hd => .of_readTagged_content hp hc ((h depth).reads ?_), fun hd => ?_⟩
    · exact depth_record_le_iff.mp hd _ List.mem_cons_self
    · have hj : depth < j.depth := by
        simpa [Json.depth, membersDepth] using hd
      change Refuses _ ([.openRecord] ++ ([.text (some key)] ++ ([.colon] ++
        (j.lexemes ++ [.closeRecord]))))
      refine .after (.of_next .openRecord) (.after (.of_readString key)
        (.after (.of_expect .colon) ?_))
      simp only [hp, hc]
      exact (((h depth).refuses hj).bind _).append _

end Follows

/-! ## Records -/

/-- Written members fill a draft through the slots with their keys, as far as the levels allow. -/
inductive FillsWithin (depth : ℕ) (slots : List (Slot σ)) : σ → List (String × Json) → σ → Prop
  | nil (d : σ) : FillsWithin depth slots d [] d
  | cons {d₀ d₁ d₂ : σ} {key : String} {value : Json} {members : List (String × Json)}
      {slot : Slot σ} (found : slots.find? (fun s => s.key == key) = some slot)
      (fresh : slot.filled d₀ = false) (fill : Follows depth (slot.fill d₀) value d₁)
      (others : FillsWithin depth slots d₁ members d₂) :
      FillsWithin depth slots d₀ ((key, value) :: members) d₂

namespace FillsWithin

variable {depth : ℕ} {slots : List (Slot σ)} {d₀ d₂ : σ} {members : List (String × Json)}

theorem append {later : List (String × Json)} (d : σ) (h : FillsWithin depth slots d₀ members d)
    (hl : FillsWithin depth slots d later d₂) :
    FillsWithin depth slots d₀ (members ++ later) d₂ := by
  induction h with
  | nil d => exact hl
  | cons found fresh fill _ ih => exact .cons found fresh fill (ih hl)

theorem of_optionalMember {write : α → Json} {value : Option α} {key : String} {slot : Slot σ}
    (put : Option (Option α) → σ) (found : slots.find? (fun s => s.key == key) = some slot)
    (fresh : slot.filled (put none) = false)
    (fill : ∀ a ∈ value, Follows depth (slot.fill (put none)) (write a) (put (some (some a)))) :
    FillsWithin depth slots (put none) (optionalMember key write value) (put (value.map some)) := by
  cases value with
  | none => exact .nil _
  | some a => exact .cons found fresh (fill a rfl) (.nil _)

theorem fills (h : FillsWithin depth slots d₀ members d₂) (hd : membersDepth members ≤ depth) :
    Fills slots d₀ members d₂ := by
  induction h with
  | nil d => exact .nil d
  | cons found fresh fill others ih =>
    rw [membersDepth, max_le_iff] at hd
    exact .cons found fresh (fill.reads hd.1) (ih hd.2)

theorem refuses_members (h : FillsWithin depth slots d₀ members d₂)
    (hd : depth < membersDepth members) (fuel : ℕ) :
    Refuses (readMembers slots fuel d₀) (memberLexemes members ++ [.closeRecord]) := by
  induction h generalizing fuel with
  | nil d => exact absurd hd (by simp [membersDepth])
  | @cons d₀ d₁ d₂ key value members slot found fresh fill others ih =>
    cases fuel with
    | zero => exact .of_malformed _
    | succ fuel =>
      -- the lexemes behind the value of the first member
      have hmember : ∃ ls, memberLexemes ((key, value) :: members) ++ [.closeRecord] =
            [.text (some key)] ++ ([.colon] ++ (value.lexemes ++ ls)) ∧
          (membersDepth members ≤ depth ∨
            ls = .comma :: (memberLexemes members ++ [.closeRecord])) := by
        cases members with
        | nil => exact ⟨[.closeRecord], rfl, .inl (Nat.zero_le _)⟩
        | cons member members =>
          refine ⟨_, ?_, .inr rfl⟩
          simp [memberLexemes]
      obtain ⟨ls, hls, hlater⟩ := hmember
      rw [hls]
      refine .after (.of_readString key) (.after (.of_expect .colon) ?_)
      simp only [found, fresh, Bool.false_eq_true, if_false]
      by_cases hfirst : depth < value.depth
      · exact ((fill.refuses hfirst).bind _).append _
      · have hmembers : depth < membersDepth members := by
          rw [membersDepth, lt_max_iff] at hd
          exact hd.resolve_left hfirst
        obtain rfl := hlater.resolve_left (by omega)
        exact .after (fill.reads (by omega)) (.accepting (ih hmembers fuel))

theorem refuses_draft (h : FillsWithin depth slots d₀ members d₂)
    (hd : depth < membersDepth members) :
    Refuses (readDraft slots d₀) (Json.record members).lexemes := by
  change Refuses _ ([.openRecord] ++ (memberLexemes members ++ [.closeRecord]))
  refine .after (.of_next .openRecord) ?_
  change Refuses (do
    if ← accept .closeRecord then pure d₀ else readMembers slots (← get).length d₀) _
  cases members with
  | nil => exact absurd hd (by simp [membersDepth])
  | cons member members =>
    have hmembers : Refuses (do readMembers slots (← get).length d₀) _ :=
      .of_length (h.refuses_members hd)
    obtain ⟨ls, hls⟩ := exists_memberLexemes_cons member members
    rw [hls] at hmembers ⊢
    exact .refusing (by simp) hmembers

end FillsWithin

/-- **A record is followed if its members fill the draft that makes it**, as far as the levels
allow. -/
theorem Follows.of_readRecord {slots : ℕ → List (Slot σ)} {make : σ → Reading β} {b : β} {d₀ : σ}
    {members : List (String × Json)} (draft : σ)
    (h : ∀ depth, FillsWithin depth (slots depth) d₀ members draft)
    (hm : Reads (make draft) [] b) (depth : ℕ) :
    Follows depth (readRecord slots d₀ make depth) (.record members) b := by
  cases depth with
  | zero => exact ⟨fun hd => absurd hd (by simp [Json.depth]), fun _ => .of_malformed _⟩
  | succ depth =>
    refine ⟨fun hd => ?_, fun hd => ?_⟩
    · exact ((h depth).fills (Nat.le_of_succ_le_succ hd)).of_readRecord draft hm
    · exact ((h depth).refuses_draft (Nat.lt_of_succ_lt_succ hd)).bind make

/-! ## Whole texts -/

/-- **Whether a value is read from its text is decided by its depth.** -/
theorem Follows.readText_render {read : Reader α} {j : Json} {a : α}
    (h : Follows nestingLimit (read nestingLimit) j a) :
    readText read j.render = if j.depth ≤ nestingLimit then .ok a else .error .malformed := by
  split_ifs with hd
  · exact Json.readText_render (h.reads hd)
  · have hrun := h.refuses (Nat.lt_of_not_le hd) []
    rw [List.append_nil] at hrun
    rw [readText, lex_render, readAll, hrun]

end WorkedAlgebra.Json
