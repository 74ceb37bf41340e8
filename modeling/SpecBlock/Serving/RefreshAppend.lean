import SpecBlock.Serving.RefreshAgreement

/-!
# Appending the allocated slots

The append stores every lane of a row at the column behind the existing slots. Lanes that
would leave the row are clamped onto its last column, where they store what the column held
before. In a row that the append fills exactly, the last live lane and the clamped padding
lanes share that column, so the slot survives only in some orders of the stores.
-/

namespace SpecBlock.Serving

open Stores

namespace RefreshInputs

variable {V T : Type} (inputs : RefreshInputs V T)

/-- Existing slots of a row. -/
def count (row : Nat) : Nat := inputs.existingCrossCounts.getD row 0

/-- Slots a row gains. -/
def gained (K row : Nat) : Nat := inputs.nPerReq.getD row 0 * K

/-- Rows whose existing slots are followed by zeros, whose allocated slots are followed by
zeros, and which have room for both. -/
structure Padded (K capacity : Nat) : Prop where
  room : ∀ row, row < inputs.batchSize → inputs.count row + inputs.gained K row ≤ capacity
  accepted : ∀ row, row < inputs.batchSize → inputs.nPerReq.getD row 0 ≤ inputs.acceptCapacity K
  existingZero : ∀ row column, inputs.count row ≤ column →
    inputs.existingCrossLoc.cell 0 row column = 0
  allocatedZero : ∀ row lane, inputs.gained K row ≤ lane →
    inputs.allocatedCrossLoc.cell 0 row lane = 0

/-- The existing slots of a row, its allocated ones, and zeros up to the capacity. -/
def appendedRow (K capacity row : Nat) : List Nat :=
  (List.range (inputs.count row)).map (inputs.existingCrossLoc.cell 0 row) ++
    (List.range (inputs.gained K row)).map (inputs.allocatedCrossLoc.cell 0 row) ++
    List.replicate (capacity - (inputs.count row + inputs.gained K row)) 0

/-- A cell of the appended row. -/
def appendedCell (K row column : Nat) : Nat :=
  if column < inputs.count row then inputs.existingCrossLoc.cell 0 row column
  else if column < inputs.count row + inputs.gained K row then
    inputs.allocatedCrossLoc.cell 0 row (column - inputs.count row)
  else 0

/-- The append leaves a column of the row free, or every lane of the row is live, or the last
live lane holds the sentinel. -/
def LastColumnSafe (K capacity row : Nat) : Prop :=
  inputs.count row + inputs.gained K row < capacity ∨
    inputs.gained K row = inputs.allocatedCrossLoc.width ∨
    inputs.allocatedCrossLoc.cell 0 row (inputs.gained K row - 1) = 0

theorem appendedRow_eq {K capacity row : Nat}
    (room : inputs.count row + inputs.gained K row ≤ capacity) :
    inputs.appendedRow K capacity row = (List.range capacity).map (inputs.appendedCell K row) := by
  obtain ⟨rest, rfl⟩ := Nat.exists_eq_add_of_le room
  rw [List.range_add, List.range_add, List.map_append, List.map_append, appendedRow,
    Nat.add_sub_cancel_left]
  congr 1
  · congr 1
    · apply List.map_congr_left
      intro column member
      have here := List.mem_range.mp member
      simp [appendedCell, here]
    · rw [List.map_map]
      apply List.map_congr_left
      intro column member
      have here := List.mem_range.mp member
      simp [appendedCell, here]
  · rw [List.map_map]
    symm
    apply List.eq_replicate_iff.mpr
    refine ⟨by simp, ?_⟩
    intro entry member
    obtain ⟨column, -, rfl⟩ := List.mem_map.mp member
    have behind : ¬ inputs.count row + inputs.gained K row + column < inputs.count row := by omega
    simp [appendedCell, behind]

variable {inputs}

theorem existingCopy_eq {K capacity row column : Nat} (padded : inputs.Padded K capacity)
    (inside : column < capacity) :
    inputs.existingCopy capacity (row, column) =
      if column < inputs.count row then inputs.existingCrossLoc.cell 0 row column else 0 := by
  unfold existingCopy
  by_cases stored : column < min inputs.existingCrossLoc.width capacity
  · rw [if_pos stored]
    split
    · rfl
    next beyond => exact padded.existingZero row column (by omega)
  · rw [if_neg stored]
    have outside : inputs.existingCrossLoc.cell 0 row column = 0 := by
      have wide : inputs.existingCrossLoc.width ≤ column := by omega
      unfold Matrix2.cell
      by_cases listed : row < inputs.existingCrossLoc.rows.length
      · have width := inputs.existingCrossLoc.rectangular _ (List.getElem_mem listed)
        have short : inputs.existingCrossLoc.rows[row].length ≤ column := by omega
        simp [List.getD_eq_getElem?_getD, List.getElem?_eq_getElem listed,
          List.getElem?_eq_none_iff.mpr short]
      · simp [List.getD_eq_getElem?_getD, List.getElem?_eq_none_iff.mpr (Nat.le_of_not_lt listed)]
    rw [outside, ite_self]

theorem mem_appendStores {K capacity : Nat} {place : Nat × Nat} {stored : Nat} :
    (place, stored) ∈ inputs.appendStores K capacity ↔
      ∃ row lane, row < inputs.batchSize ∧ lane < inputs.allocatedCrossLoc.width ∧
        place = (row, inputs.safeColumn capacity row lane) ∧
        stored = if lane < inputs.gained K row then inputs.allocatedCrossLoc.cell 0 row lane
          else inputs.existingCopy capacity place := by
  simp only [appendStores, List.mem_flatMap, List.mem_map, List.mem_range, Prod.mk.injEq]
  constructor
  · rintro ⟨row, rowInside, lane, laneInside, rfl, rfl⟩
    exact ⟨row, lane, rowInside, laneInside, rfl, rfl⟩
  · rintro ⟨row, lane, rowInside, laneInside, rfl, rfl⟩
    exact ⟨row, rowInside, lane, laneInside, rfl, rfl⟩

section rows

variable {K capacity row : Nat} (positive : 0 < K) (padded : inputs.Padded K capacity)
  (inside : row < inputs.batchSize)

include positive inside

theorem gained_pos : 0 < inputs.gained K row := by
  unfold gained
  rw [inputs.nPerReq_getD row inside]
  exact Nat.mul_pos (by omega) positive

include padded

omit positive in
theorem gained_le : inputs.gained K row ≤ inputs.allocatedCrossLoc.width :=
  (Nat.mul_le_mul_right K (padded.accepted row inside)).trans (Nat.div_mul_le_self _ _)

/-- A safe row keeps its slots in whatever order the lanes store. -/
theorem appended_cell {result : Nat × Nat → Nat} {column : Nat}
    (outcome : Outcome (inputs.existingCopy capacity) (inputs.appendStores K capacity) result)
    (safe : inputs.LastColumnSafe K capacity row) (columnInside : column < capacity) :
    result (row, column) = inputs.appendedCell K row column := by
  have gains := gained_pos positive inside
  have lanes := gained_le padded inside
  have room := padded.room row inside
  have before : inputs.existingCopy capacity (row, column) =
      if column < inputs.count row then inputs.existingCrossLoc.cell 0 row column else 0 :=
    existingCopy_eq padded columnInside
  unfold appendedCell
  by_cases hit : ∃ lane, lane < inputs.allocatedCrossLoc.width ∧
      inputs.safeColumn capacity row lane = column
  · -- the lanes that store here are behind the existing slots, and they agree
    have agree : ∀ lane, lane < inputs.allocatedCrossLoc.width →
        inputs.safeColumn capacity row lane = column →
        (if lane < inputs.gained K row then inputs.allocatedCrossLoc.cell 0 row lane
          else inputs.existingCopy capacity (row, column)) = inputs.appendedCell K row column := by
      intro lane laneInside here
      unfold safeColumn at here
      change min (inputs.count row + lane) (capacity - 1) = column at here
      have behind : ¬ column < inputs.count row := by omega
      rw [before, if_neg behind, appendedCell, if_neg behind]
      by_cases live : lane < inputs.gained K row
      · have exactly : column = inputs.count row + lane := by omega
        subst exactly
        rw [if_pos live, if_pos (by omega), Nat.add_sub_cancel_left]
      · rw [if_neg live]
        by_cases taken : column < inputs.count row + inputs.gained K row
        · -- the clamped lane shares the last column with the last live lane
          have last : column - inputs.count row = inputs.gained K row - 1 := by omega
          rcases safe with free | full | sentinel
          · omega
          · omega
          · rw [if_pos taken, last, sentinel]
        · rw [if_neg taken]
    obtain ⟨lane, laneInside, here⟩ := hit
    have unfolded := agree lane laneInside here
    unfold appendedCell at unfolded
    rw [← unfolded]
    refine outcome.agreed (mem_appendStores.mpr ⟨row, lane, inside, laneInside, by rw [here], rfl⟩) ?_
    rintro ⟨place, stored⟩ member rfl
    obtain ⟨other, otherLane, -, otherInside, same, rfl⟩ := mem_appendStores.mp member
    obtain ⟨rfl, otherHere⟩ := Prod.mk.inj same
    rw [agree otherLane otherInside otherHere.symm, agree lane laneInside here]
  · -- no lane stores here
    have untouched : result (row, column) = inputs.existingCopy capacity (row, column) :=
        outcome.frame (by
      rintro ⟨place, stored⟩ member rfl
      obtain ⟨other, lane, -, laneInside, same, -⟩ := mem_appendStores.mp member
      obtain ⟨rfl, here⟩ := Prod.mk.inj same
      exact hit ⟨lane, laneInside, here.symm⟩)
    rw [untouched, before]
    split
    · rfl
    next behind =>
      rw [if_neg]
      intro taken
      apply hit
      refine ⟨column - inputs.count row, by omega, ?_⟩
      change min (inputs.count row + (column - inputs.count row)) (capacity - 1) = column
      omega

/-- In a row that is not safe some order of the stores loses the last slot. -/
theorem append_loses (exposed : ¬ inputs.LastColumnSafe K capacity row) :
    ∃ result, Outcome (inputs.existingCopy capacity) (inputs.appendStores K capacity) result ∧
      capacity - 1 < capacity ∧
      result (row, capacity - 1) ≠ inputs.appendedCell K row (capacity - 1) := by
  have gains := gained_pos positive inside
  have lanes := gained_le padded inside
  have room := padded.room row inside
  unfold LastColumnSafe at exposed
  push Not at exposed
  obtain ⟨full, padding, live⟩ := exposed
  have clamped : ((row, capacity - 1), 0) ∈ inputs.appendStores K capacity := by
    apply mem_appendStores.mpr
    refine ⟨row, inputs.gained K row, inside, by omega, ?_, ?_⟩
    · change (row, capacity - 1) =
        (row, min (inputs.count row + inputs.gained K row) (capacity - 1))
      congr 1
      omega
    · rw [if_neg (Nat.lt_irrefl _), existingCopy_eq padded (by omega), if_neg (by omega)]
  obtain ⟨result, outcome, lost⟩ := Outcome.possible (inputs.existingCopy capacity) clamped
  refine ⟨result, outcome, by omega, ?_⟩
  have place : capacity - 1 - inputs.count row = inputs.gained K row - 1 := by omega
  rw [lost, appendedCell, if_neg (by omega), if_pos (by omega), place]
  exact fun same => live same.symm

end rows

end RefreshInputs

/-- Storing in some order of its own. -/
def Scatters (scatter : (Nat × Nat → Nat) → List ((Nat × Nat) × Nat) → Nat × Nat → Nat) : Prop :=
  ∀ memory stores, Outcome memory stores (scatter memory stores)

/-- In every order of the stores the plan is returned, no row is flagged, and every row has
its existing slots, its allocated ones, and zeros. -/
def KeepsSlots {V T : Type} [Zero V] [Zero T] (inputs : RefreshInputs V T) (K capacity : Nat) :
    Prop :=
  ∀ scatter, Scatters scatter → ∃ plan,
    inputs.buildSpecblockRefreshTensorPlan scatter K (some capacity) = .ok plan ∧
      (∀ flags ∈ plan.crossOverflow, ∀ flag ∈ flags, flag = false) ∧
      plan.crossLoc = some ((List.range inputs.batchSize).map (inputs.appendedRow K capacity))

/-- The append loses no slot exactly when every row is safe in its last column. -/
theorem append_keepsSlots {V T : Type} [Zero V] [Zero T] (inputs : RefreshInputs V T)
    (K capacity : Nat) (checked : inputs.check K (some capacity) = .ok ())
    (padded : inputs.Padded K capacity) :
    KeepsSlots inputs K capacity ↔
      ∀ row, row < inputs.batchSize → inputs.LastColumnSafe K capacity row := by
  obtain ⟨positive, -, -, -, counts, -, -, -⟩ := RefreshInputs.check_ok checked
  have built (scatter : (Nat × Nat → Nat) → List ((Nat × Nat) × Nat) → Nat × Nat → Nat) :
      inputs.buildSpecblockRefreshTensorPlan scatter K (some capacity) = .ok
        { inputs.plainPlan K with
          crossLoc := some ((List.range inputs.batchSize).map (fun row =>
            (List.range capacity).map (fun column =>
              scatter (inputs.existingCopy capacity) (inputs.appendStores K capacity)
                (row, column))))
          crossOverflow := some ((inputs.plainPlan K).crossCounts.map (fun count =>
            decide (capacity < count))) } := by
    simp only [RefreshInputs.buildSpecblockRefreshTensorPlan, checked]
    rfl
  constructor
  · intro keeps row inside
    by_contra exposed
    obtain ⟨result, outcome, last, lost⟩ :=
      RefreshInputs.append_loses positive padded inside exposed
    classical
    -- a scatter that takes the losing order here
    let losing : (Nat × Nat → Nat) → List ((Nat × Nat) × Nat) → Nat × Nat → Nat :=
      fun memory stores => if memory = inputs.existingCopy capacity ∧
        stores = inputs.appendStores K capacity then result else store memory stores
    have scatters : Scatters losing := by
      intro memory stores
      by_cases here : memory = inputs.existingCopy capacity ∧ stores = inputs.appendStores K capacity
      · rw [show losing memory stores = result from if_pos here, here.1, here.2]
        exact outcome
      · rw [show losing memory stores = store memory stores from if_neg here]
        exact Outcome.listed memory stores
    obtain ⟨plan, returned, -, rows⟩ := keeps losing scatters
    rw [built losing] at returned
    obtain rfl := Except.ok.inj returned
    have chosen : losing (inputs.existingCopy capacity) (inputs.appendStores K capacity) = result :=
      if_pos ⟨rfl, rfl⟩
    simp only [chosen, Option.some.injEq] at rows
    have rowSame := List.map_inj_left.mp rows row (List.mem_range.mpr inside)
    rw [inputs.appendedRow_eq (padded.room row inside)] at rowSame
    exact lost (List.map_inj_left.mp rowSame (capacity - 1) (List.mem_range.mpr last))
  · intro safe scatter scatters
    refine ⟨_, built scatter, ?_, ?_⟩
    · intro flags isFlags flag member
      obtain rfl : _ = flags := Option.some.inj isFlags
      obtain ⟨count, isCount, rfl⟩ := List.mem_map.mp member
      obtain ⟨row, inside, rfl⟩ := List.getElem_of_mem isCount
      simp only [RefreshInputs.plainPlan, List.length_zipWith, List.length_map, counts,
        inputs.nPerReq_length] at inside
      have rowInside : row < inputs.batchSize := by omega
      have room := padded.room row rowInside
      have listed : row < inputs.existingCrossCounts.length := counts.symm ▸ rowInside
      have requests : row < inputs.nPerReq.length := inputs.nPerReq_length.symm ▸ rowInside
      simp only [RefreshInputs.count, RefreshInputs.gained, List.getD_eq_getElem?_getD,
        List.getElem?_eq_getElem listed, List.getElem?_eq_getElem requests,
        Option.getD_some] at room
      simpa [RefreshInputs.plainPlan] using room
    · show some _ = some _
      congr 1
      apply List.map_congr_left
      intro row member
      have inside := List.mem_range.mp member
      rw [inputs.appendedRow_eq (padded.room row inside)]
      apply List.map_congr_left
      intro column columnMember
      exact RefreshInputs.appended_cell positive padded inside (scatters _ _) (safe row inside)
        (List.mem_range.mp columnMember)

/-- One request that accepted nothing, with two slots and room for four, allocated slots for
two chain rows. -/
def fullInputs : RefreshInputs Nat Nat where
  flatChainTokens := [5]
  flatChainHidden := ⟨1, [[50]], by decide⟩
  acceptLengths := [0]
  crossPositions := [3]
  existingCrossLoc := ⟨2, [[1, 2]], by decide⟩
  existingCrossCounts := [2]
  allocatedCrossLoc := ⟨4, [[3, 4, 0, 0]], by decide⟩

theorem fullInputs_padded (capacity : Nat) (room : 4 ≤ capacity) :
    fullInputs.Padded 2 capacity := by
  constructor
  · intro row inside
    obtain rfl : row = 0 := Nat.lt_one_iff.mp inside
    exact room
  · intro row inside
    obtain rfl : row = 0 := Nat.lt_one_iff.mp inside
    decide
  · rintro (_ | row) column behind
    · match column, behind with
      | column + 2, _ => rfl
    · rfl
  · rintro (_ | row) lane behind
    · match lane, behind with
      | 2, _ => rfl
      | 3, _ => rfl
      | lane + 4, _ => rfl
    · rfl

/-- With room for five slots the append keeps them all. -/
theorem append_keepsSlots_five : KeepsSlots fullInputs 2 5 :=
  (append_keepsSlots fullInputs 2 5 rfl (fullInputs_padded 5 (by decide))).mpr (by
    intro row inside
    obtain rfl : row = 0 := Nat.lt_one_iff.mp inside
    exact .inl (by decide))

/-- With room for just its four slots, a row of two existing slots loses one of the two it
gains when the padding lanes store last. -/
theorem append_loses_last : fullInputs.check 2 (some 4) = .ok () ∧ fullInputs.Padded 2 4 ∧
    ¬ KeepsSlots fullInputs 2 4 := by
  refine ⟨rfl, fullInputs_padded 4 (by decide), ?_⟩
  intro keeps
  obtain ⟨plan, returned, -, rows⟩ := keeps store (fun _ _ => Outcome.listed _ _)
  obtain rfl := Except.ok.inj returned
  exact absurd rows (by decide)

end SpecBlock.Serving
