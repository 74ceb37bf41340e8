import SpecBlock.Building.CudaTree
import SpecBlock.Foundation.Stores

/-!
# The Triton tree builder

Block 1 is one program over vectors of slots. Its alternatives are the lanes of a padded tile of
sixteen columns a slot, of which a mask selects the real ones; a masked prefix sum over the tile
gives each its place. What a lane needs of its slot is summed up over all slots under a match.

The next block takes two launches. A program over a padded vector of leaves counts their
alternatives and stores the offset of every leaf; then one program a leaf scatters its chain and
its alternatives from there.

A kernel is what it stores. The lanes of a store, and the programs of a launch, run in any order.
-/

namespace SpecBlock.Building.Triton
open Segments Stores

variable {S : Type} [AddCommGroup S]

/-- `tl.cumsum`: the sum of a vector up to a lane and with it. -/
def cumsum {M : Type} [Add M] (vector : Nat → M) : Nat → M
  | 0 => vector 0
  | lane + 1 => cumsum vector lane + vector (lane + 1)

/-- `tl.sum` over so many lanes. -/
def sum {M : Type} [Add M] [Zero M] (lanes : Nat) (vector : Nat → M) : M :=
  ((List.range lanes).map vector).sum

/-- `J_PAD`: the columns of a slot in the tile of alternatives, whatever the tables have. -/
def jPad : Nat := 16

/-- `tl.where` on one lane. Both values are computed, and the flag takes one of them. -/
def tlWhere (flag : Bool) (whenTrue whenFalse : Nat) : Nat := if flag then whenTrue else whenFalse

/-- `slot0_rule` of a lane, from the percentages that its probability reaches. Every lane computes
it, and only the first lane's value is used. -/
def slot0Rule (adaptiveSlot0Mode : Nat) (pVec : Nat → Bool) (bw : Nat) : Nat :=
  if adaptiveSlot0Mode = 0 then bw
  else if adaptiveSlot0Mode = 1 then
    tlWhere (pVec 90) (min bw 3) (tlWhere (pVec 80) (min bw 5) (tlWhere (pVec 60) (min bw 8) bw))
  else if adaptiveSlot0Mode = 2 then
    tlWhere (pVec 95) (min bw 2) (tlWhere (pVec 85) (min bw 4) (tlWhere (pVec 60) (min bw 7) bw))
  else if adaptiveSlot0Mode = 3 then
    tlWhere (pVec 95) 1
      (tlWhere (pVec 90) (min bw 2) (tlWhere (pVec 80) (min bw 4) (tlWhere (pVec 60) (min bw 7) bw)))
  else tlWhere (pVec 90) 1 (tlWhere (pVec 80) (min bw 3) (tlWhere (pVec 60) (min bw 6) bw))

/-- `slot_k_rule` of a lane. The sizing and the scatter kernel write the same chain over their own tiles. -/
def slotKRule (adaptiveAllMode : Nat) (pVec : Nat → Bool) (baseTopk : Nat) : Nat :=
  if adaptiveAllMode = 0 then baseTopk
  else if adaptiveAllMode = 1 then
    tlWhere (pVec 95) (min baseTopk 2) (tlWhere (pVec 85) (min baseTopk 3) baseTopk)
  else tlWhere (pVec 90) 1 (tlWhere (pVec 70) (min baseTopk 2) (tlWhere (pVec 50) (min baseTopk 3) baseTopk))

/-- The chain of selections takes the value that the branches of the host's rule return. -/
theorem slot0Rule_eq (mode : Nat) (pVec : Nat → Bool) (bw : Nat) :
    slot0Rule mode pVec bw = applyAdaptiveSlot0 mode pVec bw := by
  simp only [slot0Rule, tlWhere, applyAdaptiveSlot0]

theorem slotKRule_eq (mode : Nat) (pVec : Nat → Bool) (baseTopk : Nat) :
    slotKRule mode pVec baseTopk = applyAdaptiveAll mode pVec baseTopk := by
  simp only [slotKRule, tlWhere, applyAdaptiveAll]

section block1

variable (params : BuildParams S) (inputs : Block1Inputs S)

/-- `slot_topks`: the first lane takes its beam, the others what the table has for their ranks. -/
def slotTopks (k : Nat) : Nat :=
  let pVec := params.atLeast (inputs.greedyLps k)
  tlWhere (decide (k = 0)) (slot0Rule params.adaptiveSlot0 pVec params.beamWidth)
    (slotKRule params.adaptiveAll pVec (inputs.rankSlotTopkTable (inputs.rankPreds k)))

/-- `give_up`: the lane at which the count of ranks that are not zero gets to one. -/
def giveUp : Bool :=
  let nonZero := fun k => if inputs.rankPreds k = 0 then 0 else 1
  let isFirstNz := fun k => cumsum nonZero k = 1 ∧ nonZero k = 1
  let firstNzRank := sum params.K (fun k => if isFirstNz k then inputs.rankPreds k else 0)
  decide (0 < sum params.K nonZero ∧ firstNzRank = params.giveUpClass)

/-- `n_alt_slot`. -/
def nAltSlot (k : Nat) : Nat := slotTopks params inputs k - 1

/-- `cum_alt_excl`. -/
def cumAltExcl (k : Nat) : Nat := cumsum (nAltSlot params inputs) k - nAltSlot params inputs k

/-- `total_alts1`. -/
def totalAlts1 : Nat := sum params.K (nAltSlot params inputs)

/-- `active_mask_i64`. -/
def activeMask (k : Nat) : Nat := if 1 < slotTopks params inputs k then 1 else 0

/-- `active_rank`. -/
def activeRank (k : Nat) : Nat := cumsum (activeMask params inputs) k - activeMask params inputs k

/-- `n_active`. -/
def nActive : Nat := sum params.K (activeMask params inputs)

/-- `hitch_add`. -/
def hitchAdd : Nat :=
  let lastActive := sum params.K (fun k =>
    if k = params.K - 1 then activeMask params inputs k else 0)
  if giveUp params inputs = false ∧ lastActive = 0 then 1 else 0

/-- `cum_greedy_lps`. -/
def cumGreedyLps (k : Nat) : S := cumsum inputs.greedyLps k

/-- `cum_greedy_lps_excl`. -/
def cumGreedyLpsExcl (k : Nat) : S := cumGreedyLps inputs k - inputs.greedyLps k

/-- `alt_k`. -/
def altK (lane : Nat) : Nat := lane / jPad

/-- `alt_j_idx`. -/
def altJIdx (lane : Nat) : Nat := lane - altK lane * jPad

/-- `alt_j`. -/
def altJ (lane : Nat) : Nat := altJIdx lane + 1

/-- `alt_valid`. -/
def altValid (lane : Nat) : Bool :=
  let slotTopksPerAlt := sum params.K (fun k => if altK lane = k then slotTopks params inputs k else 0)
  decide (altJIdx lane < params.maxTopk - 1 ∧ altJ lane < slotTopksPerAlt)

/-- `alt_rank`. -/
def altRank (lane : Nat) : Nat :=
  cumsum (fun lane => (altValid params inputs lane).toNat) lane - (altValid params inputs lane).toNat

/-- `alt_lp_node`. -/
def altLpNode (lane : Nat) : S :=
  sum params.K (fun k => if altK lane = k then cumGreedyLpsExcl inputs k else 0) +
    inputs.allTopLps (altK lane * params.maxTopk + altJ lane)

/-- A lane of the chain. -/
def chainLane (k : Nat) : TreeRow S where
  token := inputs.greedyTarget k
  parent := (k : Int) - 1
  lp := cumGreedyLps inputs k
  rank := inputs.rankPreds k
  block := 0
  slot := k

/-- A lane of the alternatives. -/
def altLane (lane : Nat) : TreeRow S where
  token := inputs.allTopTarget (altK lane * params.maxTopk + altJ lane)
  parent := if altK lane = 0 then -1 else (altK lane : Int) - 1
  lp := altLpNode params inputs lane
  rank := inputs.rankPreds (altK lane)
  block := 0
  slot := altK lane

/-- A lane of the pending alternatives. -/
def altPendLane (lane : Nat) : PendRow S where
  hiddenSlot := altK lane
  inputId := inputs.allTopTarget (altK lane * params.maxTopk + altJ lane)
  tttValid := altK lane + 1
  nodeIndex := params.K + altRank params inputs lane
  cumLp := altLpNode params inputs lane

/-- A lane of the pending slots. -/
def activeLane (k : Nat) : PendRow S where
  hiddenSlot := k
  inputId := inputs.greedyTarget k
  tttValid := k + 1
  nodeIndex := k
  cumLp := cumGreedyLps inputs k

/-- The row of the end of the chain. -/
def hitchRow : PendRow S where
  hiddenSlot := params.K - 1
  inputId := sum params.K (fun k => if k = params.K - 1 then inputs.greedyTarget k else 0)
  tttValid := params.K
  nodeIndex := params.K - 1
  cumLp := sum params.K (fun k => if k = params.K - 1 then cumGreedyLps inputs k else 0)

/-- The lanes of the tile that are not masked. -/
def altLanes : List Nat := (List.range (params.K * jPad)).filter (altValid params inputs)

/-- `_block1_mega_kernel`. The lanes store the chain, the real alternatives and the pending rows at
places of their own, and the program stores the four sizes. -/
def block1MegaKernel : Block1Stores S where
  tree :=
    (List.range params.K).map (fun k => (k, chainLane inputs k)) ++
    (altLanes params inputs).map (fun lane =>
      (params.K + altRank params inputs lane, altLane params inputs lane))
  pend :=
    (altLanes params inputs).map (fun lane =>
      (nActive params inputs + altRank params inputs lane, altPendLane params inputs lane)) ++
    ((List.range params.K).filter (fun k => activeMask params inputs k = 1)).map (fun k =>
      (activeRank params inputs k, activeLane inputs k)) ++
    if hitchAdd params inputs = 1 then
      [(nActive params inputs + totalAlts1 params inputs, hitchRow params inputs)]
    else []
  sizes := [params.K + totalAlts1 params inputs, nActive params inputs, totalAlts1 params inputs,
    nActive params inputs + totalAlts1 params inputs + hitchAdd params inputs]

end block1

section bfs

variable (params : BuildParams S) (inputs : BfsInputs S) (N treeStart pendDepth : Nat)

/-- `slot_topks` of a leaf. -/
def leafSlotTopks (leaf slot : Nat) : Nat :=
  slotKRule params.adaptiveAll (params.atLeast (inputs.allGreedyLps (leaf * params.K + slot)))
    (inputs.rankSlotTopkTable (inputs.allRankPreds (leaf * params.K + slot)))

/-- `n_alt_per_leaf`; the lanes behind the last leaf are masked. -/
def nAltPerLeaf (leaf : Nat) : Nat :=
  sum params.K (fun slot => if 1 < leafSlotTopks params inputs leaf slot ∧ leaf < N then
    leafSlotTopks params inputs leaf slot - 1 else 0)

/-- `_bfs_sizing_kernel`: the stores of the offsets, and the total. -/
def bfsSizingKernel (blockN : Nat) : List (Nat × Nat) × Nat :=
  (((List.range blockN).filter (fun leaf => leaf < N)).map (fun leaf =>
    (leaf, cumsum (nAltPerLeaf params inputs N) leaf - nAltPerLeaf params inputs N leaf)),
    sum blockN (nAltPerLeaf params inputs N))

/-- `n_alt_slot` of a leaf. -/
def leafNAltSlot (leaf slot : Nat) : Nat :=
  if 1 < leafSlotTopks params inputs leaf slot then leafSlotTopks params inputs leaf slot - 1 else 0

/-- `cum_greedy_lps` of a leaf. -/
def leafCumGreedyLps (leaf slot : Nat) : S :=
  cumsum (fun slot => inputs.allGreedyLps (leaf * params.K + slot)) slot

/-- `cum_greedy_lps_excl` of a leaf. -/
def leafCumGreedyLpsExcl (leaf slot : Nat) : S :=
  leafCumGreedyLps params inputs leaf slot - inputs.allGreedyLps (leaf * params.K + slot)

/-- A lane of a leaf's chain. -/
def leafChainLane (leaf slot : Nat) : Nat × TreeRow S :=
  let chainPos := treeStart + leaf * params.K + slot
  (chainPos, {
    token := inputs.allGreedyTarget (leaf * params.K + slot)
    parent := if slot = 0 then (inputs.pendNodeIndices leaf : Int) else (chainPos : Int) - 1
    lp := inputs.pendCumLps leaf + leafCumGreedyLps params inputs leaf slot
    rank := inputs.allRankPreds (leaf * params.K + slot)
    block := pendDepth
    slot := slot })

/-- A lane of a leaf's alternatives, behind the offset of the leaf. -/
def leafAltLane (leafAltBase leaf slot j : Nat) : Nat × TreeRow S :=
  let cumAltSlotExcl := cumsum (leafNAltSlot params inputs leaf) slot -
    leafNAltSlot params inputs leaf slot
  let ttOff := leaf * params.K * params.maxTopk + slot * params.maxTopk + (j + 1)
  (treeStart + N * params.K + leafAltBase + (cumAltSlotExcl + j), {
    token := inputs.topTargetAll ttOff
    parent := if slot = 0 then (inputs.pendNodeIndices leaf : Int)
      else ((treeStart + leaf * params.K : Nat) : Int) + slot - 1
    lp := inputs.pendCumLps leaf + leafCumGreedyLpsExcl params inputs leaf slot +
      inputs.topLpsAll ttOff
    rank := inputs.allRankPreds (leaf * params.K + slot)
    block := pendDepth
    slot := slot })

/-- `valid_2d`. -/
def leafAltValid (leaf slot j : Nat) : Bool :=
  decide (1 < leafSlotTopks params inputs leaf slot ∧ j < params.maxTopk - 1 ∧
    j + 1 < leafSlotTopks params inputs leaf slot)

/-- One program of `_bfs_scatter_kernel`. -/
def bfsScatterKernel (cumAltExclPerLeaf : Nat → Nat) (leaf : Nat) : List (Nat × TreeRow S) :=
  (List.range params.K).map (leafChainLane params inputs treeStart pendDepth leaf) ++
  (List.range params.K).flatMap (fun slot =>
    ((List.range jPad).filter (leafAltValid params inputs leaf slot)).map
      (leafAltLane params inputs N treeStart pendDepth (cumAltExclPerLeaf leaf) leaf slot))

/-- `block_n`: the size of the scratch buffer, or the next power of two for more leaves. -/
def bfsBlockN (current : Nat) : Nat :=
  if current < N then max 64 (2 ^ (Nat.log2 (N - 1) + 1)) else current

/-- `triton_build_bfs`: both launches, with a scratch buffer for the offsets. -/
def tritonBuildBfs (blockN : Nat) (cumAltBuf : Nat → Nat) : BfsStores S where
  tree := (List.range N).flatMap (bfsScatterKernel params inputs N treeStart pendDepth
    (store cumAltBuf (bfsSizingKernel params inputs N blockN).1))
  totalAlts := [(bfsSizingKernel params inputs N blockN).2]

end bfs

end SpecBlock.Building.Triton
