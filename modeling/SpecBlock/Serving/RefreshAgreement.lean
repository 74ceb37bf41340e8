import Mathlib.Algebra.BigOperators.Ring.Finset
import SpecBlock.Serving.RefreshPlan

/-!
# The two planners agree

Both planners place chain row `c` of a request at the number of chain rows of the earlier
requests plus `c`. The plain planner reads that offset off running totals; every program of
the fused one sums it anew over masked lanes. Below either is shown to be the plain sum,
each clamped index of a valid lane is shown to lie in the flat chain, and the stores of the
launches are shown to write every cell of the outputs exactly its own value.
-/

namespace SpecBlock.Serving

open Stores

theorem le_nextPowerOf2 (n : Nat) : n ≤ nextPowerOf2 n := by
  have widened (small shift : Nat) : small ≤ small ||| (small >>> shift) := Nat.left_le_or
  have whole : n - 1 + 1 ≤ nextPowerOf2 n := by
    unfold nextPowerOf2
    apply Nat.add_le_add_right
    exact (widened _ 1).trans ((widened _ 2).trans ((widened _ 4).trans ((widened _ 8).trans
      ((widened _ 16).trans (widened _ 32)))))
  omega

theorem chainRow_inside (counts : List Nat) (row column : Nat)
    (valid : column < counts.getD row 0) : (counts.take row).sum + column < counts.sum := by
  induction counts generalizing row with
  | nil => simp at valid
  | cons count counts ih =>
    cases row with
    | zero =>
      have here : column < count := by simpa using valid
      simp
      omega
    | succ row =>
      have rest := ih row (by simpa using valid)
      simp only [List.take_succ_cons, List.sum_cons]
      omega

theorem maskedStores_tiled {α : Type} (rows width : Nat) (lanes : List Nat)
    (value : Nat → Nat → α) (covers : ∀ column, column < width → column ∈ lanes) :
    Tiled ((List.range rows).flatMap (fun row => maskedStores lanes (row * width)
      (fun column => decide (column < width)) (value row))) rows width value := by
  constructor
  · intro row column rowInside inside
    apply List.mem_flatMap.mpr
    refine ⟨row, List.mem_range.mpr rowInside, List.mem_map.mpr ⟨column, ?_, rfl⟩⟩
    exact List.mem_filter.mpr ⟨covers column inside, decide_eq_true inside⟩
  · intro entry member
    obtain ⟨row, -, stored⟩ := List.mem_flatMap.mp member
    obtain ⟨column, kept, rfl⟩ := List.mem_map.mp stored
    exact ⟨row, column, of_decide_eq_true (List.mem_filter.mp kept).2, rfl⟩

theorem singleStores {α : Type} (rows : Nat) (value : Nat → α) {memory result : Nat → α}
    (outcome : Outcome memory ((List.range rows).flatMap (fun row => [(row, value row)])) result) :
    (List.range rows).map result = (List.range rows).map value := by
  apply List.map_congr_left
  intro row member
  apply outcome.agreed (List.mem_flatMap.mpr ⟨row, member, List.mem_singleton.mpr rfl⟩)
  intro entry stored here
  obtain ⟨other, -, only⟩ := List.mem_flatMap.mp stored
  obtain rfl := List.mem_singleton.mp only
  obtain rfl : other = row := here
  rfl

theorem range_map_getD {α : Type} (entries : List α) (outside : α) :
    (List.range entries.length).map (fun row => entries.getD row outside) = entries := by
  apply List.ext_getElem
  · simp
  · intro row before inside
    simp [List.getD_eq_getElem?_getD, List.getElem?_eq_getElem inside]

namespace RefreshInputs

variable {V T : Type} (inputs : RefreshInputs V T)

theorem nPerReq_getD (row : Nat) (inside : row < inputs.batchSize) :
    inputs.nPerReq.getD row 0 = inputs.acceptLengths.getD row 0 + 1 := by
  have read : row < inputs.acceptLengths.length := inside
  simp [nPerReq, List.getD_eq_getElem?_getD, List.getElem?_eq_getElem read]

theorem nPerReq_length : inputs.nPerReq.length = inputs.batchSize := by
  simp [nPerReq, batchSize]

theorem counted {α : Type} (change : Nat → α) :
    (List.range inputs.batchSize).map (fun row => change (inputs.acceptLengths.getD row 0 + 1)) =
      inputs.nPerReq.map change := by
  have listed := range_map_getD inputs.nPerReq 0
  rw [inputs.nPerReq_length] at listed
  rw [← listed, List.map_map]
  apply List.map_congr_left
  intro row member
  simp only [Function.comp, inputs.nPerReq_getD row (List.mem_range.mp member)]

/-- The masked lanes sum up the chain rows of the earlier requests. -/
theorem sourceOffset_eq (batchIdx : Nat) (inside : batchIdx < inputs.batchSize) :
    inputs.sourceOffset batchIdx = (inputs.nPerReq.take batchIdx).sum := by
  have covered : batchIdx ≤ nextPowerOf2 inputs.batchSize :=
    Nat.le_trans (Nat.le_of_lt inside) (le_nextPowerOf2 _)
  have lanes (lane : Nat) : load (fun address => (inputs.acceptLengths.getD address 0 : Int)) lane
      (decide (lane < batchIdx)) (-1) + 1 =
        if lane < batchIdx then ((inputs.nPerReq.getD lane 0 : Nat) : Int) else 0 := by
    by_cases before : lane < batchIdx
    · have read := inputs.nPerReq_getD lane (Nat.lt_trans before inside)
      rw [load, if_pos (decide_eq_true before), if_pos before, read]
      rfl
    · simp [load, before]
  have summed : ((List.range (nextPowerOf2 inputs.batchSize)).map (fun lane =>
      if lane < batchIdx then ((inputs.nPerReq.getD lane 0 : Nat) : Int) else 0)).sum =
        ((inputs.nPerReq.take batchIdx).sum : Nat) := by
    obtain ⟨rest, blocks⟩ := Nat.exists_eq_add_of_le covered
    rw [blocks, List.range_add, List.map_append, List.sum_append, List.map_map]
    have later : ((List.range rest).map ((fun lane =>
        if lane < batchIdx then ((inputs.nPerReq.getD lane 0 : Nat) : Int) else 0) ∘
          (batchIdx + ·))).sum = 0 := by
      apply List.sum_eq_zero
      intro entry member
      obtain ⟨lane, -, rfl⟩ := List.mem_map.mp member
      simp
    have earlier : ((List.range batchIdx).map (fun lane =>
        if lane < batchIdx then ((inputs.nPerReq.getD lane 0 : Nat) : Int) else 0)) =
          (inputs.nPerReq.take batchIdx).map (Nat.cast : Nat → Int) := by
      have size : inputs.nPerReq.length = inputs.batchSize := by simp [nPerReq, batchSize]
      apply List.ext_getElem
      · simp [size, Nat.le_of_lt inside]
      · intro lane before _
        have early : lane < batchIdx := by simpa using before
        simp [early, List.getD_eq_getElem?_getD,
          List.getElem?_eq_getElem (show lane < inputs.nPerReq.length by omega)]
    rw [later, earlier, Int.add_zero]
    exact (Nat.cast_list_sum _).symm
  unfold sourceOffset
  rw [List.map_congr_left (fun lane _ => lanes lane), summed, Int.toNat_natCast]

/-- The flat chains have one row for every accepted token and one bonus row for each request. -/
def Flat : Prop := inputs.flatChainTokens.length = inputs.nPerReq.sum

variable {inputs}

/-- The token a program loads for a column is the plain planner's. -/
theorem token_eq [Zero T] (flat : inputs.Flat) (row column : Nat) (inside : row < inputs.batchSize) :
    load (fun address => inputs.flatChainTokens.getD address 0)
      (inputs.sourceOffset row + min (column + 1) (inputs.acceptLengths.getD row 0 + 1 - 1))
      (decide (column < inputs.acceptLengths.getD row 0 + 1)) 0 = inputs.token row column := by
  have rows : row < inputs.nPerReq.length := by simpa [nPerReq, batchSize] using inside
  have count := inputs.nPerReq_getD row inside
  unfold token load
  rw [inputs.sourceOffset_eq row inside, chainOffsets_getD _ _ rows, count]
  by_cases valid : column < inputs.acceptLengths.getD row 0 + 1
  · have source : min (column + 1) (inputs.acceptLengths.getD row 0 + 1 - 1) <
        inputs.nPerReq.getD row 0 := by omega
    have bound := chainRow_inside inputs.nPerReq row _ source
    have unclamped : min ((inputs.nPerReq.take row).sum +
        min (column + 1) (inputs.acceptLengths.getD row 0 + 1 - 1))
          (inputs.flatChainTokens.length - 1) = (inputs.nPerReq.take row).sum +
        min (column + 1) (inputs.acceptLengths.getD row 0 + 1 - 1) := by
      rw [flat]
      omega
    simp only [valid, decide_true, if_true, unclamped]
  · rw [if_neg (by simpa using valid), if_neg valid]

/-- Chain column and block slot, listed in order, are quotient and remainder. -/
theorem posColumns_eq (capacity K : Nat) :
    posColumns capacity K =
      (List.range (capacity * K)).map (fun column => column / K + column % K) := by
  induction capacity with
  | zero => simp [posColumns]
  | succ capacity ih =>
    have last : ((List.range K).map (capacity * K + ·)).map
        (fun column => column / K + column % K) = (List.range K).map (capacity + ·) := by
      rw [List.map_map]
      apply List.map_congr_left
      intro slot member
      have small := List.mem_range.mp member
      simp only [Function.comp]
      rw [address_div small, address_mod small]
    rw [Nat.succ_mul, List.range_add, List.map_append, last, ← ih]
    simp [posColumns, List.range_succ]

/-- The value the hidden kernel stores at a column of a packed row. -/
def hiddenCell [Zero V] (inputs : RefreshInputs V T) (acceptCapacity row offset : Nat) : V :=
  load inputs.flatHidden
    ((inputs.sourceOffset (row / acceptCapacity) + row % acceptCapacity) *
      inputs.flatChainHidden.width + offset)
    (decide (row % acceptCapacity < inputs.acceptLengths.getD (row / acceptCapacity) 0 + 1 ∧
      offset < inputs.flatChainHidden.width)) 0

/-- The programs of the hidden kernel write every cell of the packed rows. -/
theorem hiddenStores_tiled [Zero V] (inputs : RefreshInputs V T) (acceptCapacity : Nat) :
    Tiled ((List.range (inputs.batchSize * acceptCapacity)).flatMap (fun row =>
        (List.range ((inputs.flatChainHidden.width + blockHidden - 1) / blockHidden)).flatMap
          (inputs.packRefreshHidden acceptCapacity row)))
      (inputs.batchSize * acceptCapacity) inputs.flatChainHidden.width
      (inputs.hiddenCell acceptCapacity) := by
  constructor
  · intro row offset rowInside inside
    apply List.mem_flatMap.mpr
    refine ⟨row, List.mem_range.mpr rowInside, ?_⟩
    apply List.mem_flatMap.mpr
    have block : offset / blockHidden <
        (inputs.flatChainHidden.width + blockHidden - 1) / blockHidden := by
      unfold blockHidden
      omega
    refine ⟨offset / blockHidden, List.mem_range.mpr block, ?_⟩
    refine List.mem_map.mpr ⟨offset, List.mem_filter.mpr ⟨?_, decide_eq_true inside⟩, rfl⟩
    refine List.mem_map.mpr ⟨offset % blockHidden, ?_, ?_⟩
    · exact List.mem_range.mpr (Nat.mod_lt _ (by decide))
    · unfold blockHidden
      omega
  · intro entry member
    obtain ⟨row, -, inRow⟩ := List.mem_flatMap.mp member
    obtain ⟨hiddenBlock, -, stored⟩ := List.mem_flatMap.mp inRow
    obtain ⟨offset, kept, rfl⟩ := List.mem_map.mp stored
    exact ⟨row, offset, of_decide_eq_true (List.mem_filter.mp kept).2, rfl⟩

/-- A packed row of the hidden kernel is the plain planner's. -/
theorem hiddenRow_eq [Zero V] (inputs : RefreshInputs V T)
    (rows : inputs.flatChainHidden.rows.length = inputs.nPerReq.sum) (acceptCapacity : Nat)
    (row column : Nat) (inside : row < inputs.batchSize) (columnInside : column < acceptCapacity) :
    (List.range inputs.flatChainHidden.width).map
        (inputs.hiddenCell acceptCapacity (row * acceptCapacity + column)) =
      if column < inputs.nPerReq.getD row 0 then
        inputs.flatChainHidden.rows.getD
          (min ((chainOffsets inputs.nPerReq).getD row 0 + column)
            (inputs.flatChainHidden.rows.length - 1))
          (List.replicate inputs.flatChainHidden.width 0)
      else List.replicate inputs.flatChainHidden.width 0 := by
  have requests : row < inputs.nPerReq.length := by simpa [nPerReq, batchSize] using inside
  have count := inputs.nPerReq_getD row inside
  unfold hiddenCell
  rw [address_div columnInside, address_mod columnInside, inputs.sourceOffset_eq row inside, chainOffsets_getD _ _ requests,
    ← count]
  by_cases valid : column < inputs.nPerReq.getD row 0
  · have bound := chainRow_inside inputs.nPerReq row column valid
    have unclamped : min ((inputs.nPerReq.take row).sum + column)
        (inputs.flatChainHidden.rows.length - 1) = (inputs.nPerReq.take row).sum + column := by
      omega
    rw [if_pos valid, unclamped]
    generalize (inputs.nPerReq.take row).sum + column = source at bound
    have stored : source < inputs.flatChainHidden.rows.length := by omega
    have width := inputs.flatChainHidden.rectangular _ (List.getElem_mem stored)
    have read : inputs.flatChainHidden.rows.getD source
        (List.replicate inputs.flatChainHidden.width 0) = inputs.flatChainHidden.rows[source] := by
      simp [List.getD_eq_getElem?_getD, List.getElem?_eq_getElem stored]
    have listed := range_map_getD inputs.flatChainHidden.rows[source] (0 : V)
    rw [width] at listed
    rw [read, ← listed]
    apply List.map_congr_left
    intro offset member
    have small := List.mem_range.mp member
    rw [load, if_pos (decide_eq_true ⟨valid, small⟩), flatHidden, address_div small,
      address_mod small, Matrix2.cell]
    simp [List.getD_eq_getElem?_getD, List.getElem?_eq_getElem stored]
  · rw [if_neg valid]
    apply List.eq_replicate_iff.mpr
    refine ⟨by simp, ?_⟩
    intro entry member
    obtain ⟨offset, -, rfl⟩ := List.mem_map.mp member
    exact if_neg (fun both => valid (of_decide_eq_true both).1)

theorem check_ok {K : Nat} {outputCrossCapacity : Option Nat}
    (checked : inputs.check K outputCrossCapacity = .ok ()) :
    0 < K ∧ outputCrossCapacity ≠ some 0 ∧
      inputs.flatChainHidden.rows.length = inputs.flatChainTokens.length ∧
      inputs.crossPositions.length = inputs.batchSize ∧
      inputs.existingCrossCounts.length = inputs.batchSize ∧
      inputs.existingCrossLoc.rows.length = inputs.batchSize ∧
      inputs.allocatedCrossLoc.rows.length = inputs.batchSize ∧
      inputs.acceptCapacity K * K = inputs.allocatedCrossLoc.width := by
  unfold check at checked
  split at checked
  · cases checked
  · split at checked
    · cases checked
    · split at checked
      · cases checked
      next zero positive agree =>
        split at checked
        · cases checked
        next multiple =>
          push Not at agree
          obtain ⟨hidden, positions, counts, existing, allocated⟩ := agree
          have whole : inputs.allocatedCrossLoc.width % K = 0 := not_not.mp multiple
          refine ⟨by omega, positive, hidden, positions, counts, existing, allocated, ?_⟩
          exact Nat.div_mul_cancel (Nat.dvd_of_mod_eq_zero whole)

section launches

variable [Zero V] [Zero T] {K : Nat} {empty filled : Buffers V T}
  (launched : Launched (inputs.launchStores K (inputs.acceptCapacity K)) empty filled)

include launched

theorem launched_hidden (rows : inputs.flatChainHidden.rows.length = inputs.nPerReq.sum) :
    (List.range inputs.batchSize).map (fun row =>
      (List.range (inputs.acceptCapacity K)).map (fun column =>
        (List.range inputs.flatChainHidden.width).map (fun offset => filled.hidden
          ((row * inputs.acceptCapacity K + column) * inputs.flatChainHidden.width + offset)))) =
      (packFlatChains (List.replicate inputs.flatChainHidden.width 0) inputs.flatChainHidden.rows
        inputs.nPerReq (inputs.acceptCapacity K)).1 := by
  unfold packFlatChains
  rw [inputs.nPerReq_length]
  apply List.map_congr_left
  intro row rowMember
  apply List.map_congr_left
  intro column columnMember
  have inside := List.mem_range.mp rowMember
  have columnInside := List.mem_range.mp columnMember
  rw [← inputs.hiddenRow_eq rows _ row column inside columnInside]
  apply List.map_congr_left
  intro offset member
  have packedRow : row * inputs.acceptCapacity K + column <
      inputs.batchSize * inputs.acceptCapacity K := by
    have next : (row + 1) * inputs.acceptCapacity K ≤ inputs.batchSize * inputs.acceptCapacity K :=
      Nat.mul_le_mul_right _ inside
    rw [Nat.succ_mul] at next
    omega
  exact launched.hidden.cell_eq (inputs.hiddenStores_tiled _) packedRow (List.mem_range.mp member)

theorem launched_tokens (flat : inputs.Flat) :
    view inputs.batchSize (inputs.acceptCapacity K) filled.tokens =
      (List.range inputs.batchSize).map (fun row =>
        (List.range (inputs.acceptCapacity K)).map (inputs.token row)) := by
  have stores := launched.tokens
  simp only [launchStores, List.flatMap_map, packRefreshMetadata] at stores
  rw [stores.view_eq (maskedStores_tiled _ _ _ _ (fun column inside =>
    List.mem_range.mpr (Nat.lt_of_lt_of_le inside (le_nextPowerOf2 _))))]
  apply List.map_congr_left
  intro row member
  apply List.map_congr_left
  intro column _
  exact token_eq flat row column (List.mem_range.mp member)

theorem launched_chainMask {α : Type} (zero : α) (rows : List α) :
    view inputs.batchSize (inputs.acceptCapacity K) filled.chainMask =
      (packFlatChains zero rows inputs.nPerReq (inputs.acceptCapacity K)).2 := by
  have stores := launched.chainMask
  simp only [launchStores, List.flatMap_map, packRefreshMetadata] at stores
  rw [stores.view_eq (maskedStores_tiled _ _ _ _ (fun column inside =>
    List.mem_range.mpr (Nat.lt_of_lt_of_le inside (le_nextPowerOf2 _))))]
  unfold packFlatChains
  rw [inputs.nPerReq_length]
  apply List.map_congr_left
  intro row member
  rw [inputs.nPerReq_getD row (List.mem_range.mp member)]

theorem launched_posIds :
    view inputs.batchSize (inputs.acceptCapacity K * K) filled.posIds =
      (List.range inputs.batchSize).map (fun row =>
        (posColumns (inputs.acceptCapacity K) K).map (fun (column : Nat) =>
          inputs.startPosition row + 1 + (column : Int))) := by
  have stores := launched.posIds
  simp only [launchStores, List.flatMap_map, packRefreshMetadata, Nat.mul_assoc] at stores
  rw [stores.view_eq (maskedStores_tiled _ _ _ _ (fun column inside =>
    List.mem_range.mpr (Nat.lt_of_lt_of_le inside (le_nextPowerOf2 _))))]
  apply List.map_congr_left
  intro row member
  rw [posColumns_eq, List.map_map]
  apply List.map_congr_left
  intro column _
  simp only [Function.comp, startPosition, Nat.cast_add]
  omega

theorem launched_counts (counts : inputs.existingCrossCounts.length = inputs.batchSize) :
    (List.range inputs.batchSize).map filled.nPerReq = inputs.nPerReq ∧
    (List.range inputs.batchSize).map filled.acceptOverflow =
      inputs.nPerReq.map (fun count => decide (inputs.acceptCapacity K < count)) ∧
    (List.range inputs.batchSize).map filled.startPositions =
      (List.range inputs.batchSize).map inputs.startPosition ∧
    (List.range inputs.batchSize).map filled.crossCounts =
      List.zipWith (· + ·) inputs.existingCrossCounts (inputs.nPerReq.map (· * K)) ∧
    (List.range inputs.batchSize).map filled.newCrossValidSlots = inputs.nPerReq.map (· * K) := by
  refine ⟨?_, ?_, ?_, ?_, ?_⟩
  · have stores := launched.nPerReq
    simp only [launchStores, List.flatMap_map, packRefreshMetadata] at stores
    rw [singleStores _ _ stores]
    simpa using inputs.counted id
  · have stores := launched.acceptOverflow
    simp only [launchStores, List.flatMap_map, packRefreshMetadata] at stores
    rw [singleStores _ _ stores]
    exact inputs.counted (fun count => decide (inputs.acceptCapacity K < count))
  · have stores := launched.startPositions
    simp only [launchStores, List.flatMap_map, packRefreshMetadata] at stores
    rw [singleStores _ _ stores]
    rfl
  · have stores := launched.crossCounts
    simp only [launchStores, List.flatMap_map, packRefreshMetadata] at stores
    rw [singleStores _ _ stores]
    apply List.ext_getElem
    · simp [counts, inputs.nPerReq_length]
    · intro row before _
      have inside : row < inputs.acceptLengths.length := by simpa [batchSize] using before
      have existing : row < inputs.existingCrossCounts.length := counts.symm ▸ inside
      simp [RefreshInputs.nPerReq, List.getD_eq_getElem?_getD, List.getElem?_eq_getElem inside,
        List.getElem?_eq_getElem existing]
  · have stores := launched.newCrossValidSlots
    simp only [launchStores, List.flatMap_map, packRefreshMetadata] at stores
    rw [singleStores _ _ stores]
    exact inputs.counted (· * K)

end launches

/-- Whatever the buffers held and however the programs ran, the filled buffers show the plain
plan. -/
theorem launched_plan [Zero V] [Zero T] {K : Nat} (checked : inputs.check K none = .ok ())
    (flat : inputs.Flat) {empty filled : Buffers V T}
    (launched : Launched (inputs.launchStores K (inputs.acceptCapacity K)) empty filled) :
    filled.plan inputs.batchSize (inputs.acceptCapacity K) K inputs.flatChainHidden.width =
      inputs.plainPlan K := by
  obtain ⟨-, -, rows, -, counts, -, -, -⟩ := check_ok checked
  obtain ⟨nPerReq, acceptOverflow, startPositions, crossCounts, newCrossValidSlots⟩ :=
    launched_counts launched counts
  simp only [Buffers.plan, plainPlan, launched_hidden launched (rows.trans flat),
    launched_tokens launched flat, launched_posIds launched, nPerReq, acceptOverflow,
    launched_chainMask launched (List.replicate inputs.flatChainHidden.width 0)
      inputs.flatChainHidden.rows, startPositions, crossCounts, newCrossValidSlots]

end RefreshInputs

/-- The fused planner returns exactly the plan of the plain one, whichever order its programs
run in and whatever its buffers held. -/
theorem buildsCuda_plain {V T : Type} [Zero V] [Zero T]
    (scatter : (Nat × Nat → Nat) → List ((Nat × Nat) × Nat) → Nat × Nat → Nat)
    (inputs : RefreshInputs V T) (K : Nat) (checked : inputs.check K none = .ok ())
    (flat : inputs.flatChainTokens.length = (inputs.acceptLengths.map (· + 1)).sum)
    (plan : SpecBlockRefreshTensorPlan V T) :
    inputs.BuildsCuda K plan ↔
      inputs.buildSpecblockRefreshTensorPlan scatter K none = .ok plan := by
  have plain : inputs.buildSpecblockRefreshTensorPlan scatter K none = .ok (inputs.plainPlan K) := by
    simp only [RefreshInputs.buildSpecblockRefreshTensorPlan, checked]
    rfl
  rw [plain]
  constructor
  · rintro ⟨empty, filled, launched, rfl⟩
    rw [RefreshInputs.launched_plan checked flat launched]
  · intro same
    obtain rfl := Except.ok.inj same
    have launched := (inputs.launchStores K (inputs.acceptCapacity K)).run_launched
      ⟨fun _ => 0, fun _ => 0, fun _ => 0, fun _ => 0, fun _ => false, fun _ => false, fun _ => 0,
        fun _ => 0, fun _ => 0⟩
    exact ⟨_, _, launched, (RefreshInputs.launched_plan checked flat launched).symm⟩

/-- Two requests with two tokens accepted and none, and room for two chain rows each. -/
def overflowingInputs : RefreshInputs Nat Nat where
  flatChainTokens := [5, 6, 7, 8]
  flatChainHidden := ⟨1, [[50], [60], [70], [80]], by decide⟩
  acceptLengths := [2, 0]
  crossPositions := [3, 9]
  existingCrossLoc := ⟨1, [[1], [2]], by decide⟩
  existingCrossCounts := [1, 1]
  allocatedCrossLoc := ⟨4, [[3, 4, 5, 6], [7, 8, 0, 0]], by decide⟩

/-- A plan with a row that overflows and a row that is padded. -/
theorem buildsCuda_plain_overflowing :
    overflowingInputs.BuildsCuda 2 (overflowingInputs.plainPlan 2) :=
  (buildsCuda_plain store overflowingInputs 2 rfl (by decide) _).mpr rfl

example : (overflowingInputs.plainPlan 2).tokens = [[6, 7], [8, 0]] := by decide

end SpecBlock.Serving
