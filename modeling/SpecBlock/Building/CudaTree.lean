import Mathlib.Algebra.Group.Basic
import SpecBlock.Building.TreeRows
import SpecBlock.Foundation.RepeatedMax

/-!
# The CUDA tree builder

Block 1 is built by one thread. It writes the greedy chain, one node a slot, and behind it the
alternatives of every slot; each slot with alternatives, each alternative and, unless the path
gives up or the last slot is pending already, the end of the chain become pending. The next block
is built by one thread a leaf, which counts the alternatives of all leaves again to find its place.

A variant of the first kernel writes a fixed number of pending rows. It collects the pending ones
in an array of sixty-four, takes the largest by repeated search, and fills up with dummies, rows
without a valid slot.

A kernel is what it stores, in program order.
-/

namespace SpecBlock.Building
open Segments RepeatedMax

/-- What a first kernel stores in the tree buffers, the pending buffers, and `sizes`. -/
structure Block1Stores (S : Type) where
  tree : List (Nat × TreeRow S)
  pend : List (Nat × PendRow S)
  sizes : List Nat

/-- What a next kernel stores in the tree buffers, and in the buffer of one number that holds the
total of the alternatives. -/
structure BfsStores (S : Type) where
  tree : List (Nat × TreeRow S)
  totalAlts : List Nat

namespace Cuda

variable {S : Type} [AddCommGroup S]

/-- `running_sum` before a turn. -/
def runningSum (lps : Nat → S) : Nat → S
  | 0 => 0
  | k + 1 => runningSum lps k + lps k

/-- The entry with the first rank that is not zero: whether it gives up. -/
def giveUp (K giveUpClass : Nat) (ranks : Nat → Nat) : Bool :=
  match ((List.range K).map ranks).find? (fun rank => rank != 0) with
  | some rank => decide (rank = giveUpClass)
  | none => false

section block1

variable (params : BuildParams S) (inputs : Block1Inputs S)

/-- `slot_topks`. -/
def slotTopk (k : Nat) : Nat :=
  if k = 0 then
    applyAdaptiveSlot0 params.adaptiveSlot0 (params.atLeast (inputs.greedyLps k)) params.beamWidth
  else
    applyAdaptiveAll params.adaptiveAll (params.atLeast (inputs.greedyLps k))
      (inputs.rankSlotTopkTable (inputs.rankPreds k))

/-- `cum_glp`. -/
def cumGlp (k : Nat) : S := runningSum inputs.greedyLps (k + 1)

/-- `n_alt_slot`. -/
def nAltSlot (k : Nat) : Nat := if 1 < slotTopk params inputs k then slotTopk params inputs k - 1 else 0

/-- `cum_alt_excl`, and behind the last slot `total_alts1`. -/
def cumAltExcl (k : Nat) : Nat := before (nAltSlot params inputs) k

/-- `active_rank`, and behind the last slot `n_active`. -/
def activeRank (k : Nat) : Nat := before (fun k => if 1 < slotTopk params inputs k then 1 else 0) k

/-- `hitch_add`. -/
def hitchAdd : Nat :=
  if giveUp params.K params.giveUpClass inputs.rankPreds = false ∧
      ¬ 1 < slotTopk params inputs (params.K - 1) then 1 else 0

/-- A node of the greedy chain. -/
def chainRow (k : Nat) : TreeRow S where
  token := inputs.greedyTarget k
  parent := (k : Int) - 1
  lp := cumGlp inputs k
  rank := inputs.rankPreds k
  block := 0
  slot := k

/-- Log-probability of an alternative. -/
def altLp (k j : Nat) : S :=
  (if k = 0 then 0 else cumGlp inputs (k - 1)) + inputs.allTopLps (k * params.maxTopk + j)

/-- An alternative. -/
def altRow (k j : Nat) : TreeRow S where
  token := inputs.allTopTarget (k * params.maxTopk + j)
  parent := if k = 0 then -1 else (k : Int) - 1
  lp := altLp params inputs k j
  rank := inputs.rankPreds k
  block := 0
  slot := k

/-- Where an alternative is stored. -/
def altPos (k j : Nat) : Nat := params.K + cumAltExcl params inputs k + (j - 1)

/-- The pending row of an alternative. -/
def altPend (k j : Nat) : PendRow S where
  hiddenSlot := k
  inputId := inputs.allTopTarget (k * params.maxTopk + j)
  tttValid := k + 1
  nodeIndex := altPos params inputs k j
  cumLp := altLp params inputs k j

/-- The pending row of a slot with alternatives, or of the end of the chain. -/
def chainPend (k : Nat) : PendRow S where
  hiddenSlot := k
  inputId := inputs.greedyTarget k
  tttValid := k + 1
  nodeIndex := k
  cumLp := cumGlp inputs k

/-- Alternatives, in the order of the loops. -/
def forAlts {β : Type} (body : Nat → Nat → β) : List β :=
  (List.range params.K).flatMap (fun k =>
    (List.range' 1 (slotTopk params inputs k - 1)).map (body k))

/-- Slots with alternatives. -/
def activeSlots : List Nat := (List.range params.K).filter (fun k => 1 < slotTopk params inputs k)

/-- The stores to the tree of both first kernels. -/
def block1Tree : List (Nat × TreeRow S) :=
  (List.range params.K).map (fun k => (k, chainRow inputs k)) ++
    forAlts params inputs (fun k j => (altPos params inputs k j, altRow params inputs k j))

/-- `build_tree_block1_kernel`. Behind the greedy chain come the alternatives, slot by slot. Pending
are the slots with alternatives, then the alternatives, then the end of the chain unless it is among
the slots. -/
def buildTreeBlock1Kernel : Block1Stores S where
  tree := block1Tree params inputs
  pend :=
    let nActive := activeRank params inputs params.K
    let totalAlts1 := cumAltExcl params inputs params.K
    forAlts params inputs (fun k j =>
      (nActive + cumAltExcl params inputs k + (j - 1), altPend params inputs k j)) ++
    (activeSlots params inputs).map (fun k => (activeRank params inputs k, chainPend inputs k)) ++
    if hitchAdd params inputs = 1 then
      [(nActive + totalAlts1, { chainPend inputs (params.K - 1) with tttValid := params.K })]
    else []
  sizes := [params.K + cumAltExcl params inputs params.K, activeRank params inputs params.K,
    cumAltExcl params inputs params.K,
    activeRank params inputs params.K + cumAltExcl params inputs params.K + hitchAdd params inputs]

/-- `NMAX`. -/
def nMax : Nat := 64

/-- The entries in the order in which they are collected. -/
def candidates : List (PendRow S) :=
  forAlts params inputs (altPend params inputs) ++
  (activeSlots params inputs).map (chainPend inputs) ++
  if hitchAdd params inputs = 1 then
    [{ chainPend inputs (params.K - 1) with tttValid := params.K }]
  else []

/-- The scratch arrays: an entry is collected while there is room. -/
def collected (entries : List (PendRow S)) : List (PendRow S) :=
  entries.foldl (fun scratch entry =>
    if scratch.length < nMax then scratch ++ [entry] else scratch) []

/-- A dummy. -/
def dummyPend (negInf : S) : PendRow S where
  hiddenSlot := 0
  inputId := 0
  tttValid := 0
  nodeIndex := 0
  cumLp := negInf

/-- The pending row of a search: the entry found with its key, or a dummy. -/
def selectedPend (negInf : S) : Option (S × PendRow S) → PendRow S
  | some (lp, entry) => { entry with cumLp := lp }
  | none => dummyPend negInf

variable [LinearOrder S]

/-- The rows that are left after selection. -/
def fixedPend (negInf : S) (fixedN : Nat) (scratch : List (PendRow S)) : List (PendRow S) :=
  (takeLargest negInf fixedN (scratch.map (fun entry => (entry.cumLp, entry)))).map
    (selectedPend negInf)

/-- `build_tree_block1_fixed_n_kernel`. The tree is that of the other kernel; of the candidates that
fit its buffer the best are pending, filled up to a fixed number. -/
def buildTreeBlock1FixedNKernel (negInf : S) (fixedN : Nat) : Block1Stores S where
  tree := block1Tree params inputs
  pend := (List.range fixedN).zip
    (fixedPend negInf fixedN (collected (candidates params inputs)))
  sizes := [params.K + cumAltExcl params inputs params.K, activeRank params inputs params.K,
    cumAltExcl params inputs params.K, (collected (candidates params inputs)).length]

end block1

section bfs

variable (params : BuildParams S) (inputs : BfsInputs S) (N treeStart pendDepth treeCapacity : Nat)

/-- The number of children of a leaf's slot. -/
def bfsTopk (leaf k : Nat) : Nat :=
  applyAdaptiveAll params.adaptiveAll (params.atLeast (inputs.allGreedyLps (leaf * params.K + k)))
    (inputs.rankSlotTopkTable (inputs.allRankPreds (leaf * params.K + k)))

/-- `n_alt_l`. -/
def leafAlts (leaf : Nat) : Nat :=
  before (fun k => if 1 < bfsTopk params inputs leaf k then bfsTopk params inputs leaf k - 1 else 0)
    params.K

/-- `cum_glp` of a leaf. -/
def leafCumGlp (leaf k : Nat) : S :=
  runningSum (fun k => inputs.allGreedyLps (leaf * params.K + k)) (k + 1)

/-- `chain_base`. -/
def chainBase (leaf : Nat) : Nat := treeStart + leaf * params.K

/-- A node of a leaf's chain. -/
def leafChainRow (leaf k : Nat) : TreeRow S where
  token := inputs.allGreedyTarget (leaf * params.K + k)
  parent := if k = 0 then (inputs.pendNodeIndices leaf : Int)
    else ((chainBase params treeStart leaf + k : Nat) : Int) - 1
  lp := inputs.pendCumLps leaf + leafCumGlp params inputs leaf k
  rank := inputs.allRankPreds (leaf * params.K + k)
  block := pendDepth
  slot := k

/-- An alternative of a leaf. -/
def leafAltRow (leaf k j : Nat) : TreeRow S where
  token := inputs.topTargetAll ((leaf * params.K + k) * params.maxTopk + j)
  parent := if k = 0 then (inputs.pendNodeIndices leaf : Int)
    else ((chainBase params treeStart leaf + (k - 1) : Nat) : Int)
  lp := inputs.pendCumLps leaf + (if k = 0 then 0 else leafCumGlp params inputs leaf (k - 1)) +
    inputs.topLpsAll ((leaf * params.K + k) * params.maxTopk + j)
  rank := inputs.allRankPreds (leaf * params.K + k)
  block := pendDepth
  slot := k

/-- The alternatives of a leaf, in the order of the loops; slots without any are skipped. -/
def leafAltRows (leaf : Nat) : List (TreeRow S) :=
  (List.range params.K).flatMap (fun k =>
    if bfsTopk params inputs leaf k ≤ 1 then []
    else (List.range' 1 (bfsTopk params inputs leaf k - 1)).map
      (leafAltRow params inputs treeStart pendDepth leaf k))

/-- The stores of one block of `build_tree_bfs_kernel`, guarded by the capacity. -/
def bfsBlock (leaf : Nat) : List (Nat × TreeRow S) :=
  let altBase := treeStart + N * params.K + before (leafAlts params inputs) leaf
  ((List.range params.K).map (fun k =>
      (chainBase params treeStart leaf + k, leafChainRow params inputs treeStart pendDepth leaf k)) ++
    (leafAltRows params inputs treeStart pendDepth leaf).zipIdx.map (fun alt =>
      (altBase + alt.2, alt.1))).filter (fun entry => entry.1 < treeCapacity)

/-- `build_tree_bfs_kernel` over all blocks; block 0 stores the total. -/
def buildTreeBfsKernel : BfsStores S where
  tree := (List.range N).flatMap (bfsBlock params inputs N treeStart pendDepth treeCapacity)
  totalAlts := (List.range N).flatMap (fun leaf =>
    if leaf = 0 then [before (leafAlts params inputs) N] else [])

end bfs

end Cuda

end SpecBlock.Building
