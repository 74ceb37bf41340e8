import SpecBlock.Draft.AttentionKeys

/-!
# Training masks

In training a draft block runs over all positions of a sequence at once. The first block
sees its own keys. Later blocks see the keys of the first block, the cached keys of the
blocks before, and their own keys, concatenated in that order.

Where a mask subtracts the length of a region from an index that lies before it, the
result is only used behind the check that it does not.
-/

namespace SpecBlock.Draft

/-- Mask of the first block. -/
def crossPositionCausalMask (K qIdx kvIdx : Nat) : Bool :=
  let qPos := qIdx / K
  let qSlot := qIdx % K
  let kvPos := kvIdx / K
  let kvSlot := kvIdx % K
  decide (kvPos < qPos) || (decide (kvPos = qPos) && decide (kvSlot ≤ qSlot))

/-- Mask of the blocks behind the first; `cTtt` cached keys, with a count of valid slots for
every previous block and position. -/
def block2plusMask (S K cTtt : Nat) (tttValidCounts : List (List Nat)) (qIdx kvIdx : Nat) : Bool :=
  let cCross := S * K
  let cTotal := cCross + cTtt
  let numPrevBlocks := if 0 < cTtt then cTtt / (S * K) else 0
  let blockSK := S * K
  let maxBlockIdx := numPrevBlocks - 1
  let maxCachePos := S - 1
  let qPos := qIdx / K
  let isCross := decide (kvIdx < cCross)
  let isTtt := decide (cCross ≤ kvIdx) && decide (kvIdx < cTotal)
  let isCurrent := decide (cTotal ≤ kvIdx)
  -- the first block's slots at earlier positions
  let crossPos := min (kvIdx / K) maxCachePos
  let crossOk := isCross && decide (crossPos < qPos)
  -- valid slots of the cached blocks at the same position
  let tttLocal := kvIdx - cCross
  let blockIdx := min (tttLocal / blockSK) maxBlockIdx
  let withinBlock := tttLocal % blockSK
  let cachePos := min (withinBlock / K) maxCachePos
  let cacheSlot := withinBlock % K
  let tttOk := isTtt && decide (cachePos = qPos) &&
    decide (cacheSlot < (tttValidCounts.getD blockIdx []).getD cachePos 0)
  -- the block's own slots
  let currentKvIdx := kvIdx - cTotal
  let kvPos := currentKvIdx / K
  let kvSlot := currentKvIdx % K
  let crossCurrentOk := isCurrent && decide (kvPos < qPos)
  let withinOk := isCurrent && decide (kvPos = qPos) && decide (kvSlot ≤ qIdx % K)
  crossOk || tttOk || crossCurrentOk || withinOk

/-- Keys a slot of a position sees in the first block of a sequence. -/
def trainedBlock1 (S K position slot : Nat) : List DraftKey :=
  attended (blockKeys 1 0 S K) (crossPositionCausalMask K (position * K + slot))

/-- Keys a slot of a position sees in the second block: the first block's keys lie twice
before its own, once as cross keys and once as cached ones. -/
def trainedBlock2 (S K : Nat) (tttValidCounts : List Nat) (position slot : Nat) : List DraftKey :=
  attended (blockKeys 1 0 S K ++ blockKeys 1 0 S K ++ blockKeys 2 0 S K)
    (block2plusMask S K (S * K) [tttValidCounts] (position * K + slot))

variable {S K position slot : Nat}

theorem query_index (position : Nat) (small : slot < K) :
    (position * K + slot) / K = position ∧ (position * K + slot) % K = slot := by
  constructor
  · rw [Nat.mul_comm, Nat.mul_add_div (by omega), Nat.div_eq_of_lt small, Nat.add_zero]
  · rw [Nat.mul_comm, Nat.mul_add_mod, Nat.mod_eq_of_lt small]

/-- Under the causal mask a slot sees all slots of earlier positions and its own up to itself. -/
theorem attended_causal (block first : Nat) (inside : position < S) (small : slot < K) :
    attended (blockKeys block first S K) (crossPositionCausalMask K (position * K + slot)) =
      blockKeys block first position K ++ slotKeys block (first + position) (slot + 1) := by
  obtain ⟨queryPosition, querySlot⟩ := query_index position small
  rw [attended_blockKeys true inside (show slot + 1 ≤ K by omega), if_pos rfl]
  · intro index low
    simp [crossPositionCausalMask, queryPosition, low]
  · intro index here _
    have within : decide (index % K ≤ slot) = decide (index % K < slot + 1) :=
      decide_eq_decide.mpr Nat.lt_succ_iff.symm
    rw [crossPositionCausalMask, queryPosition, querySlot, here, within, decide_eq_false (Nat.lt_irrefl _),
      decide_eq_true rfl, Bool.false_or, Bool.true_and]
  · intro index high
    have notEarlier : ¬ index / K < position := by omega
    have notHere : ¬ index / K = position := by omega
    simp [crossPositionCausalMask, queryPosition, notEarlier, notHere]

theorem trainedBlock1_eq (inside : position < S) (small : slot < K) :
    trainedBlock1 S K position slot =
      blockKeys 1 0 position K ++ slotKeys 1 position (slot + 1) := by
  rw [trainedBlock1, attended_causal 1 0 inside small, Nat.zero_add]

section secondBlock

variable (tttValidCounts : List Nat) (inside : position < S) (small : slot < K)

include inside small

/-- Cross region: the first block's slots at earlier positions. -/
theorem block2plusMask_cross (index : Nat) (low : index < S * K) :
    block2plusMask S K (S * K) [tttValidCounts] (position * K + slot) index =
      decide (index / K < position) := by
  obtain ⟨queryPosition, querySlot⟩ := query_index position small
  have notCached : ¬ S * K ≤ index := by omega
  have notOwn : ¬ S * K + S * K ≤ index := by omega
  have unclamped : index / K ≤ S - 1 := by
    have := (Nat.div_lt_iff_lt_mul (show 0 < K by omega)).mpr low
    omega
  simp [block2plusMask, queryPosition, low, notCached, notOwn, Nat.min_eq_left unclamped]

theorem block2plusMask_ttt (index : Nat) (low : index < S * K) :
    block2plusMask S K (S * K) [tttValidCounts] (position * K + slot) (S * K + index) =
      (decide (index / K = position) && decide (index % K < tttValidCounts.getD position 0)) := by
  obtain ⟨queryPosition, querySlot⟩ := query_index position small
  have notCross : ¬ S * K + index < S * K := by omega
  have notOwn : ¬ S * K + S * K ≤ S * K + index := by omega
  have cached : S * K + index < S * K + S * K := by omega
  have unclamped : index / K ≤ S - 1 := by
    have := (Nat.div_lt_iff_lt_mul (show 0 < K by omega)).mpr low
    omega
  have firstBlock : index / (S * K) = 0 := Nat.div_eq_of_lt low
  have within : index % (S * K) = index := Nat.mod_eq_of_lt low
  by_cases here : index / K = position
  · subst here
    simp [block2plusMask, queryPosition, notCross, notOwn, cached, firstBlock, within,
      Nat.min_eq_left unclamped]
  · simp [block2plusMask, queryPosition, notCross, notOwn, firstBlock, within,
      Nat.min_eq_left unclamped, here]

/-- Current region: all slots of earlier positions and the own ones up to the query's. -/
theorem block2plusMask_current (index : Nat) :
    block2plusMask S K (S * K) [tttValidCounts] (position * K + slot) (S * K + S * K + index) =
      crossPositionCausalMask K (position * K + slot) index := by
  obtain ⟨queryPosition, querySlot⟩ := query_index position small
  have notCross : ¬ S * K + S * K + index < S * K := by
    have positive : 0 < S * K := Nat.mul_pos (by omega) (by omega)
    omega
  have notCached : ¬ S * K + S * K + index < S * K + S * K := by omega
  have own : S * K + S * K ≤ S * K + S * K + index := by omega
  simp [block2plusMask, crossPositionCausalMask, queryPosition, querySlot, notCross, notCached, own]

/-- In the second block a slot sees the first block's slots at earlier positions, the valid
cached slots of its position, all second-block slots of earlier positions, and its own up to
itself. -/
theorem trainedBlock2_eq {M : Nat} (valid : tttValidCounts.getD position 0 = M) (within : M ≤ K) :
    trainedBlock2 S K tttValidCounts position slot =
      blockKeys 1 0 position K ++ slotKeys 1 position M ++
        (blockKeys 2 0 position K ++ slotKeys 2 position (slot + 1)) := by
  have cross : attended (blockKeys 1 0 S K)
      (block2plusMask S K (S * K) [tttValidCounts] (position * K + slot)) =
        blockKeys 1 0 position K := by
    rw [attended_congr _ _ (fun index low => block2plusMask_cross tttValidCounts inside small index
      (by simpa using low)), attended_blockKeys true inside (Nat.zero_le K), if_pos rfl]
    · simp [slotKeys]
    · intro index low
      exact decide_eq_true low
    · intro index here _
      simp [here]
    · intro index high
      exact decide_eq_false (by omega)
  have cached : attended (blockKeys 1 0 S K)
      (fun index => block2plusMask S K (S * K) [tttValidCounts] (position * K + slot)
        (S * K + index)) = slotKeys 1 position M := by
    rw [attended_congr _ _ (fun index low => block2plusMask_ttt tttValidCounts inside small index
      (by simpa using low)), attended_blockKeys false inside within, if_neg Bool.false_ne_true,
      Nat.zero_add, List.nil_append]
    · intro index low
      simp [Nat.ne_of_lt low]
    · intro index here _
      rw [here, valid]
      simp
    · intro index high
      simp [Nat.ne_of_gt high]
  have own : attended (blockKeys 2 0 S K)
      (fun index => block2plusMask S K (S * K) [tttValidCounts] (position * K + slot)
        (S * K + S * K + index)) =
        blockKeys 2 0 position K ++ slotKeys 2 position (slot + 1) := by
    rw [attended_congr _ _ (fun index _ => block2plusMask_current tttValidCounts inside small index)]
    rw [attended_causal 2 0 inside small, Nat.zero_add]
  unfold trainedBlock2
  rw [attended_append, attended_append, List.length_append, blockKeys_length, cross, cached, own]

end secondBlock

end SpecBlock.Draft
