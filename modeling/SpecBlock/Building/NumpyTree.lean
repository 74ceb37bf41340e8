import SpecBlock.Building.CudaTree

/-!
# The numpy tree builder

The builder grows a tree block by block. Block 1 writes the greedy chain and, behind it, the
alternatives of each slot that branches. Every later block goes on from the pending leaves: a chain
for each leaf, and behind all chains the alternatives of each pair of a leaf and a slot that
branches. The heads of the branching slots, the alternatives and, unless the path gives up, the
ends of the chains become pending, and a beam of them is kept.

The settings change how many children a slot gets, how large the beam is and which leaves it keeps.
Rows are written one behind the other, so the buffers are lists; how long they get is a result. A
column of the best tokens that a table does not have raises an error, as do a first rank that has no
branching factor and a block without slots.
Sums are exact. Which of several equal values `argpartition` puts first is left open.
-/

namespace SpecBlock.Building
open Segments

/-- The settings that the numpy builder reads. -/
structure NumpyConfig where
  K : Nat
  treeK : Option Nat
  treeKBfs : Option Nat
  maxBlocks : Nat
  beamWidth : Nat
  totalTokens : Nat
  rankClasses : Nat
  rankSlotTopk : List Nat
  bfsSlotTopk : Option (List Nat)
  strictLinear : Bool
  adaptiveBudget : Bool
  slot0Beam : Nat
  adaptiveSlot0 : Nat
  adaptiveAll : Nat
  iterAdaptBudget : Nat
  condMaxBlocks : Nat
  diverseBeam : Bool
  hiddenSlotCap : Nat
  stratBeam : Nat
  protectD1 : Bool
  protectD1N : Nat

/-- What is asked about the probabilities of log-probabilities, in hundredths: whether one is at
least or above a value, and whether the mean of some is above it. -/
structure Probes (S : Type) where
  atLeast : S → Nat → Bool
  above : S → Nat → Bool
  meanAbove : List S → Nat → Bool
  falling : ∀ (lp : S) (low high : Nat), low ≤ high → atLeast lp high = true → atLeast lp low = true

/-- What block 1 hands the builder. The tables have a row for each slot; `roundedAlloc` is the share
of the pool of alternatives that a slot's uncertainty earns. -/
structure DraftBlock1 (S : Type) where
  rankPreds : Nat → Nat
  greedyTarget : Nat → Nat
  greedyLps : Nat → S
  topTarget : Nat → Nat → Nat
  topLps : Nat → Nat → S
  roundedAlloc : Nat → Nat

/-- What a later block hands the builder, for each leaf and slot. -/
structure DraftNext (S : Type) where
  rankPreds : Nat → Nat → Nat
  greedyTarget : Nat → Nat → Nat
  greedyLps : Nat → Nat → S
  topTarget : Nat → Nat → Nat → Nat
  topLps : Nat → Nat → Nat → S

/-- The tree buffers up to the node count, and the pending leaves. -/
structure BuildState (S : Type) where
  rows : List (TreeRow S)
  pend : List (PendRow S)

namespace Numpy

section settings

variable (config : NumpyConfig)

/-- `K` for block 1. -/
def blockK : Nat :=
  match config.treeK with
  | some treeK => if treeK < config.K then treeK else config.K
  | none => config.K

/-- `K` from block 2 on. -/
def bfsK : Nat :=
  match config.treeKBfs with
  | some treeKBfs => if treeKBfs < config.K then treeKBfs else blockK config
  | none => blockK config

/-- `max_topk`. -/
def maxTopk : Nat := max config.beamWidth (config.rankSlotTopk.foldr max 0)

/-- `max_nodes`: the size of the tree arrays, from the settings alone. -/
def maxNodes : Nat :=
  let maxBeam := if 0 < config.iterAdaptBudget then config.beamWidth * 3 else config.beamWidth
  let maxTokens := if 0 < config.iterAdaptBudget then config.totalTokens * 4 else config.totalTokens
  let maxPendingB1 := maxBeam + config.K * 10
  maxTokens + maxPendingB1 * config.K * 10 + config.K * 10 * config.maxBlocks + 150

/-- `give_up_class`. -/
def giveUpClass : Nat := config.rankClasses - 1

/-- `_rank_to_factor`. -/
def rankToFactor : List Nat := [0, 4, 10, 0]

/-- The first rank of a walk that is not zero, or zero. -/
def firstRank (K : Nat) (ranks : Nat → Nat) : Nat :=
  (((List.range K).map ranks).find? (fun rank => rank != 0)).getD 0

/-- `_bfs_active_slot_topk`. -/
def bfsActiveSlotTopk : List Nat := config.bfsSlotTopk.getD config.rankSlotTopk

end settings

variable {S : Type} [AddCommGroup S]

/-- Read a log-probability from the buffer. -/
def lpAt (rows : List (TreeRow S)) (index : Nat) : S := ((rows[index]?).map TreeRow.lp).getD 0

section budgets

variable (config : NumpyConfig) (probes : Probes S) (lps : List S)

/-- `_budget_scale` and `_beam_scale`, in hundredths. -/
def iterScales : Nat × Nat :=
  let p0 := probes.above (lps.headD 0)
  let avgP := probes.meanAbove lps
  if config.iterAdaptBudget = 1 then
    if p0 90 ∧ avgP 70 then (60, 100) else if p0 70 then (100, 100) else (200, 200)
  else if config.iterAdaptBudget = 2 then
    if p0 90 ∧ avgP 70 then (50, 70) else if p0 70 then (100, 100) else (300, 250)
  else if config.iterAdaptBudget = 3 then
    if p0 90 then (40, 50) else if p0 70 then (80, 80) else (400, 300)
  else if config.iterAdaptBudget = 4 then
    if p0 90 ∧ avgP 75 then (70, 80) else if p0 70 then (110, 110) else (300, 250)
  else
    if p0 60 then (100, 100) else (250, 200)

/-- `self.total_tokens` of an iteration. -/
def iterTotalTokens : Nat :=
  if 0 < config.iterAdaptBudget then
    max 30 (config.totalTokens * (iterScales config probes lps).1 / 100)
  else config.totalTokens

/-- `self.beam_width` of an iteration. -/
def iterBeamWidth : Nat :=
  if 0 < config.iterAdaptBudget then
    min (max 3 (config.beamWidth * (iterScales config probes lps).2 / 100)) (maxTopk config)
  else config.beamWidth

/-- `iter_max_blocks`. -/
def iterMaxBlocks : Nat :=
  let p0 := probes.above (lps.headD 0)
  if 0 < config.condMaxBlocks ∧ 1 < config.maxBlocks then
    if config.condMaxBlocks = 1 then
      if p0 90 ∧ probes.meanAbove lps 70 then config.maxBlocks - 1 else config.maxBlocks
    else if config.condMaxBlocks = 2 then
      if p0 85 then config.maxBlocks - 1 else config.maxBlocks
    else if config.condMaxBlocks = 3 then
      if p0 95 then max 1 (config.maxBlocks - 2)
      else if p0 85 then config.maxBlocks - 1 else config.maxBlocks
    else config.maxBlocks
  else config.maxBlocks

end budgets

section allocation

/-- Take an alternative from the first slot with most of them, while the pool is exceeded. -/
def lowerAlloc (altBudget : Nat) : Nat → List Nat → List Nat
  | 0, alloc => alloc
  | turns + 1, alloc =>
    if altBudget < alloc.sum then
      let most := alloc.foldr max 0
      lowerAlloc altBudget turns (alloc.set (alloc.idxOf most) (most - 1))
    else alloc

/-- Give an alternative to the first slot with fewest of them, while the pool lasts. -/
def raiseAlloc (altBudget most : Nat) : Nat → List Nat → List Nat
  | 0, alloc => alloc
  | turns + 1, alloc =>
    let fewest := alloc.min?.getD 0
    if alloc.sum < altBudget ∧ fewest < most then
      raiseAlloc altBudget most turns (alloc.set (alloc.idxOf fewest) (fewest + 1))
    else alloc

/-- `alloc`: the pool of alternatives shared out. A loop makes no more turns than the sum exceeds
the pool by, or falls short of it. -/
def sharedAlloc (altBudget most : Nat) (rounded : List Nat) : List Nat :=
  let alloc := rounded.map (fun share => min (max share 1) most)
  let lowered := lowerAlloc altBudget (alloc.sum - altBudget) alloc
  raiseAlloc altBudget most (altBudget - lowered.sum) lowered

end allocation

section block1

variable (config : NumpyConfig) (probes : Probes S) (draft : DraftBlock1 S) (beamWidth : Nat)

/-- `_slot0_bw`. -/
def slot0Bw : Nat :=
  let p0 := probes.atLeast (draft.greedyLps 0)
  if config.adaptiveSlot0 = 0 then
    if 0 < config.slot0Beam then config.slot0Beam else beamWidth
  else if config.adaptiveSlot0 = 2 then
    if p0 95 then min 2 beamWidth
    else if p0 85 then min 4 beamWidth
    else if p0 60 then min 7 beamWidth
    else beamWidth
  else if config.adaptiveSlot0 = 3 then
    if p0 95 then 1
    else if p0 90 then min 2 beamWidth
    else if p0 80 then min 4 beamWidth
    else if p0 60 then min 7 beamWidth
    else beamWidth
  else if config.adaptiveSlot0 = 4 then
    if p0 90 then 1
    else if p0 80 then min 3 beamWidth
    else if p0 60 then min 6 beamWidth
    else beamWidth
  else
    if p0 90 then min 3 beamWidth
    else if p0 80 then min 5 beamWidth
    else if p0 60 then min 8 beamWidth
    else beamWidth

/-- The entry of a slot's rank in the table. -/
def tableTopk (k : Nat) : Nat := config.rankSlotTopk.getD (draft.rankPreds k) 0

/-- The number of children of a slot behind slot 0 in the adaptive modes. -/
def adaptiveTopk (k : Nat) : Nat :=
  let pk := probes.atLeast (draft.greedyLps k)
  let baseTopk := tableTopk config draft k
  if config.adaptiveAll = 2 then
    if pk 90 then 1 else if pk 70 then 2 else if pk 50 then 3 else baseTopk
  else
    if pk 95 then min 2 baseTopk else if pk 85 then min 3 baseTopk else baseTopk

/-- The loop over the slots from one on: a slot that gives up and has no children ends it. -/
def slotLoop (k : Nat) : Nat → List Nat
  | 0 => []
  | remaining + 1 =>
    if k = 0 then slot0Bw config probes draft beamWidth :: slotLoop (k + 1) remaining
    else
      let stops := draft.rankPreds k = giveUpClass config ∧ tableTopk config draft k = 0
      if config.adaptiveAll ≠ 0 then
        adaptiveTopk config probes draft k ::
          if stops then List.replicate remaining 0 else slotLoop (k + 1) remaining
      else if stops then List.replicate (remaining + 1) 0
      else tableTopk config draft k :: slotLoop (k + 1) remaining

/-- `slot_topks_np`: the shares of a common budget if that is on, and the loop over the slots otherwise. -/
def slotTopksNp : List Nat :=
  if config.adaptiveBudget then
    (sharedAlloc (beamWidth + config.rankSlotTopk.sum - config.rankSlotTopk.length)
      (maxTopk config - 1) ((List.range (blockK config)).map draft.roundedAlloc)).map (· + 1)
  else slotLoop config probes draft beamWidth 0 (blockK config)

/-- `give_up`: whether the first rank that is not zero is the last class. -/
def walkGiveUp : Bool :=
  !config.strictLinear &&
    (((List.range (blockK config)).map draft.rankPreds).find? (fun rank => rank != 0) ==
      some (giveUpClass config))

/-- A node of the greedy chain. -/
def chainRow (k : Nat) : TreeRow S where
  token := draft.greedyTarget k
  parent := (k : Int) - 1
  lp := Cuda.runningSum draft.greedyLps (k + 1)
  rank := draft.rankPreds k
  block := 0
  slot := k

/-- An alternative, with its parent read from the buffer. -/
def altRow (rows : List (TreeRow S)) (slot within : Nat) : TreeRow S where
  token := draft.topTarget slot within
  parent := (slot : Int) - 1
  lp := (if 0 < slot then lpAt rows (slot - 1) else 0) + draft.topLps slot within
  rank := draft.rankPreds slot
  block := 0
  slot := slot

/-- `active_slots`. -/
def activeSlots (topks : List Nat) : List Nat :=
  (List.range (blockK config)).filter (fun k => 1 < topks.getD k 0)

/-- `slot_expanded` and `alt_within`, entry by entry. -/
def slotExpanded (topks : List Nat) : List (Nat × Nat) :=
  ((activeSlots config topks).flatMap (fun k => List.replicate (topks.getD k 0 - 1) k)).zip
    ((activeSlots config topks).flatMap (fun k => List.range' 1 (topks.getD k 0 - 1)))

/-- The pending row of a slot's greedy token. -/
def greedyPend (rows : List (TreeRow S)) (k : Nat) : PendRow S where
  hiddenSlot := k
  inputId := draft.greedyTarget k
  tttValid := k + 1
  nodeIndex := k
  cumLp := lpAt rows k

/-- The pending row of an alternative and its node. -/
def altPend (rows : List (TreeRow S)) (alt : (Nat × Nat) × Nat) : PendRow S where
  hiddenSlot := alt.1.1
  inputId := draft.topTarget alt.1.1 alt.1.2
  tttValid := alt.1.1 + 1
  nodeIndex := alt.2
  cumLp := lpAt rows alt.2

/-- Whether block 1 reads a branching factor or a column that there is not, or has no slots. -/
def blockOneFails : Prop :=
  blockK config = 0 ∨
  (config.strictLinear = false ∧ rankToFactor.length ≤ firstRank (blockK config) draft.rankPreds) ∨
  ∃ k ∈ activeSlots config (slotTopksNp config probes draft beamWidth),
    maxTopk config < (slotTopksNp config probes draft beamWidth).getD k 0

instance : Decidable (blockOneFails config probes draft beamWidth) :=
  inferInstanceAs (Decidable (_ ∨ _ ∨ _))

/-- Block 1 of `_build_tree_from_block1`. -/
def blockOne : Option (BuildState S) :=
  let K := blockK config
  let topks := slotTopksNp config probes draft beamWidth
  if blockOneFails config probes draft beamWidth then none
  else
    let chain := (List.range K).map (chainRow draft)
    let expanded := slotExpanded config topks
    let rows := chain ++ expanded.map (fun alt => altRow draft chain alt.1 alt.2)
    let pend := (activeSlots config topks).map (greedyPend draft rows) ++
      (expanded.zipIdx K).map (altPend draft rows)
    let hitched := if !walkGiveUp config draft && !((pend.map PendRow.nodeIndex).contains (K - 1)) then
      [{ greedyPend draft rows (K - 1) with tttValid := K }] else []
    some ⟨rows, pend ++ hitched⟩

end block1

section bfs

variable (config : NumpyConfig) (probes : Probes S) (draft : DraftNext S)

/-- `max_factor`. -/
def maxFactor : Nat := 10

/-- `slot_topks_per_rank`: cut down for slots of high probability in the adaptive modes. -/
def leafTopk (leaf slot : Nat) : Nat :=
  let pk := probes.atLeast (draft.greedyLps leaf slot)
  let base := (bfsActiveSlotTopk config).getD (draft.rankPreds leaf slot) 0
  if config.adaptiveAll = 0 then base
  else if config.adaptiveAll = 2 then
    let cut1 := if pk 90 then 1 else base
    let cut2 := if pk 70 ∧ ¬ pk 90 then min 2 base else cut1
    if pk 50 ∧ ¬ pk 70 then min 3 base else cut2
  else
    let cutA := if pk 95 then min 2 base else base
    if pk 85 ∧ ¬ pk 95 then min 3 base else cutA

variable (K : Nat)

/-- `stop_at_np`: the first slot that gives up, when that class has no children. -/
def stopAt (leaf : Nat) : Nat :=
  if 0 < (bfsActiveSlotTopk config).getD (giveUpClass config) 0 then K
  else ((List.range K).find? (fun slot => draft.rankPreds leaf slot == giveUpClass config)).getD K

/-- `slot_active`. -/
def slotActive (leaf slot : Nat) : Bool :=
  decide (1 < leafTopk config probes draft leaf slot ∧ slot < stopAt config draft K leaf)

/-- `pair_leaves` and `pair_slots`, entry by entry. -/
def activePairs (N : Nat) : List (Nat × Nat) :=
  (List.range N).flatMap (fun leaf =>
    ((List.range K).filter (slotActive config probes draft K leaf)).map (fun slot => (leaf, slot)))

/-- `n_alt_per_pair`. -/
def nAltPerPair (pairs : List (Nat × Nat)) (pair : Nat) : Nat :=
  leafTopk config probes draft (pairs.getD pair (0, 0)).1 (pairs.getD pair (0, 0)).2 - 1

/-- `leaf_exp`, `slot_exp` and `alt_within`, entry by entry. -/
def pairExpanded (pairs : List (Nat × Nat)) : List ((Nat × Nat) × Nat) :=
  let nAlt := nAltPerPair config probes draft pairs
  ((List.range pairs.length).flatMap (fun pair => List.replicate (nAlt pair) pair)).zipIdx.map
    (fun entry => (pairs.getD entry.1 (0, 0), entry.2 - before nAlt entry.1 + 1))

variable (pend : List (PendRow S)) (treeStart pendDepth : Nat)

/-- A leaf's node and log-probability. -/
def pendAt (leaf : Nat) : Nat × S :=
  ((pend[leaf]?).map (fun row => (row.nodeIndex, row.cumLp))).getD (0, 0)

/-- `_vectorized_greedy_chain`: a row for each leaf and slot, by the flat index. -/
def greedyChainRow (index : Nat) : TreeRow S where
  token := draft.greedyTarget (index / K) (index - index / K * K)
  parent := if index - index / K * K = 0 then ((pendAt pend (index / K)).1 : Int)
    else ((treeStart + index : Nat) : Int) - 1
  lp := Cuda.runningSum (draft.greedyLps (index / K)) (index - index / K * K + 1) +
    (pendAt pend (index / K)).2
  rank := draft.rankPreds (index / K) (index - index / K * K)
  block := pendDepth
  slot := index - index / K * K

/-- An alternative of a leaf, with its parent read from the buffer. -/
def pairAltRow (rows : List (TreeRow S)) (alt : (Nat × Nat) × Nat) : TreeRow S :=
  let baseForLeaf := treeStart + alt.1.1 * K
  { token := draft.topTarget alt.1.1 alt.1.2 alt.2
    parent := if 0 < alt.1.2 then ((baseForLeaf + alt.1.2 : Nat) : Int) - 1
      else ((pendAt pend alt.1.1).1 : Int)
    lp := (if 0 < alt.1.2 then lpAt rows (baseForLeaf + alt.1.2 - 1) else (pendAt pend alt.1.1).2) +
      draft.topLps alt.1.1 alt.1.2 alt.2
    rank := draft.rankPreds alt.1.1 alt.1.2
    block := pendDepth
    slot := alt.1.2 }

/-- The pending row of a leaf's slot. -/
def pairPend (rows : List (TreeRow S)) (pair : Nat × Nat) : PendRow S where
  hiddenSlot := pair.2
  inputId := draft.greedyTarget pair.1 pair.2
  tttValid := pair.2 + 1
  nodeIndex := treeStart + pair.1 * K + pair.2
  cumLp := lpAt rows (treeStart + pair.1 * K + pair.2)

/-- The pending row of an alternative of a leaf and its node. -/
def pairAltPend (rows : List (TreeRow S)) (alt : ((Nat × Nat) × Nat) × Nat) : PendRow S where
  hiddenSlot := alt.1.1.2
  inputId := draft.topTarget alt.1.1.1 alt.1.1.2 alt.1.2
  tttValid := alt.1.1.2 + 1
  nodeIndex := alt.2
  cumLp := lpAt rows alt.2

/-- `hitch_leaves`: no slot gives up, and the last one does not branch. -/
def hitchLeaves (N : Nat) (pairs : List (Nat × Nat)) : List Nat :=
  (List.range N).filter (fun leaf => stopAt config draft K leaf = K ∧ (leaf, K - 1) ∉ pairs)

/-- Whether a block reads a branching factor or a column that there is not, or has no slots. -/
def expandFails (N : Nat) : Prop :=
  K = 0 ∨ (∃ leaf ∈ List.range N, rankToFactor.length ≤ firstRank K (draft.rankPreds leaf)) ∨
  ∃ pair ∈ activePairs config probes draft K N,
    maxFactor < leafTopk config probes draft pair.1 pair.2

instance (N : Nat) : Decidable (expandFails config probes draft K N) :=
  inferInstanceAs (Decidable (_ ∨ _ ∨ _))

/-- The rows and the pending leaves of a block, before the beam is kept. -/
def expand (isLast : Bool) (state : BuildState S) : Option (BuildState S) :=
  let N := state.pend.length
  let treeStart := state.rows.length
  let pairs := activePairs config probes draft K N
  if expandFails config probes draft K N then none
  else
    let chains := state.rows ++
      (List.range (N * K)).map (greedyChainRow draft K state.pend treeStart pendDepth)
    let expanded := pairExpanded config probes draft pairs
    let rows := chains ++
      expanded.map (pairAltRow draft K state.pend treeStart pendDepth chains)
    let pend := pairs.map (pairPend draft K treeStart rows) ++
      (expanded.zipIdx (treeStart + N * K)).map (pairAltPend draft rows) ++
      (hitchLeaves config draft K N pairs).map (fun leaf =>
        { pairPend draft K treeStart rows (leaf, K - 1) with tttValid := K })
    some ⟨rows, if isLast then [] else pend⟩

end bfs

section beam

variable [LinearOrder S] (argpartition : List S → Nat → List Nat) (lps : List S)

/-- So many of the chosen leaves, the largest log-probabilities first in `argpartition`. -/
def bestOf (chosen : List Nat) (kth count : Nat) : List Nat :=
  ((argpartition (chosen.map (fun index => -(lps.getD index 0))) kth).take count).map
    (fun place => chosen.getD place 0)

/-- Fill the beam with the best of the other leaves. -/
def fillBeam (beam : Nat) (keepSet : List Nat) : List Nat :=
  let remaining := (List.range lps.length).filter (fun index => index ∉ keepSet)
  let nFill := beam - keepSet.length
  if 0 < nFill ∧ 0 < remaining.length then
    if remaining.length ≤ nFill then keepSet ++ remaining
    else keepSet ++ bestOf argpartition lps remaining nFill nFill
  else keepSet

/-- Keep no more than the beam. -/
def truncateBeam (beam : Nat) (keepSet : List Nat) : List Nat :=
  if beam < keepSet.length then bestOf argpartition lps keepSet beam beam else keepSet

/-- Up to so many leaves of each group, the best ones. -/
def cappedGroups (cap : Nat) (groups : List Nat) : List Nat :=
  groups.dedup.flatMap (fun group =>
    let indices := (List.range groups.length).filter (fun index => groups[index]? = some group)
    if indices.length ≤ cap then indices else bestOf argpartition lps indices cap cap)

/-- The first of the leaves with a token that has the largest log-probability. -/
def bestOfToken (tokens : List Nat) (token : Nat) : Option Nat :=
  let indices := (List.range tokens.length).filter (fun index => tokens[index]? = some token)
  indices.find? (fun index => indices.all (fun other => lps.getD other 0 ≤ lps.getD index 0))

/-- `keep_set` of the diverse beam. -/
def diverseKeep (beam : Nat) (tokens : List Nat) : List Nat :=
  let keepSet := tokens.dedup.filterMap (bestOfToken lps tokens)
  if keepSet.length < beam then
    let remaining := (List.range lps.length).filter (fun index => index ∉ keepSet)
    if 0 < remaining.length then
      let nFill := min (beam - keepSet.length) remaining.length
      keepSet ++ bestOf argpartition lps remaining (min nFill (remaining.length - 1)) nFill
    else keepSet
  else truncateBeam argpartition lps beam keepSet

/-- `keep_set` with a place for the best protected leaves. -/
def protectedKeep (beam reserve : Nat) (protectedIdx : List Nat) : List Nat :=
  let nD1Reserve := min reserve (min protectedIdx.length (beam / 2))
  let keepSet :=
    if 0 < nD1Reserve then
      if protectedIdx.length ≤ nD1Reserve then protectedIdx
      else bestOf argpartition lps protectedIdx nD1Reserve nD1Reserve
    else []
  fillBeam argpartition lps beam keepSet

/-- `keep`, when there are more leaves than the beam takes. -/
def keepLeaves (config : NumpyConfig) (pendDepth beam : Nat) (rows : List (TreeRow S))
    (pend : List (PendRow S)) : List Nat :=
  let lps := pend.map PendRow.cumLp
  let sorted := fun keepSet : List Nat =>
    (List.range pend.length).filter (fun index => index ∈ keepSet)
  let nodes := pend.map (fun row => rows[row.nodeIndex]?)
  let slots := nodes.map (fun node => (node.map TreeRow.slot).getD 0)
  let protectedIdx := (List.range pend.length).filter (fun index =>
    (nodes.getD index none).any (fun node => node.block == 0 && node.slot == 0))
  if config.diverseBeam then
    sorted (diverseKeep argpartition lps beam (pend.map PendRow.inputId))
  else if 0 < config.hiddenSlotCap ∧ pendDepth = 1 then
    sorted (truncateBeam argpartition lps beam (fillBeam argpartition lps beam
      (cappedGroups argpartition lps config.hiddenSlotCap slots)))
  else if 0 < config.stratBeam ∧ pendDepth = 1 then
    sorted (truncateBeam argpartition lps beam (fillBeam argpartition lps beam
      (cappedGroups argpartition lps config.stratBeam (slots.map (· + 1)))))
  else if config.protectD1 ∧ pendDepth = 1 ∧ 0 < protectedIdx.length then
    sorted (protectedKeep argpartition lps beam config.protectD1N protectedIdx)
  else (argpartition (lps.map (fun lp => -lp)) beam).take beam

/-- Prune the pending leaves to what the remaining budget can use. -/
def pruneBeam (config : NumpyConfig) (totalTokens beamWidth K pendDepth : Nat)
    (state : BuildState S) : BuildState S :=
  let adaptiveBeam := min beamWidth (max 1 ((totalTokens - state.rows.length) / K))
  if adaptiveBeam < state.pend.length then
    { state with pend := (keepLeaves argpartition config pendDepth adaptiveBeam state.rows
        state.pend).filterMap (fun index => state.pend[index]?) }
  else state

end beam

section builder

variable [LinearOrder S] (config : NumpyConfig) (probes : Probes S)
  (argpartition : List S → Nat → List Nat) (first : DraftBlock1 S) (later : Nat → DraftNext S)

/-- `glp_np`. -/
def firstLps : List S := (List.range (blockK config)).map first.greedyLps

/-- One turn of the loop over the later blocks. -/
def bfsTurn (pendDepth : Nat) (state : BuildState S) : Option (BuildState S) :=
  let lps := firstLps config first
  (expand config probes (later pendDepth) (bfsK config) pendDepth
    (decide (iterMaxBlocks config probes lps ≤ pendDepth + 1)) state).map
    (pruneBeam argpartition config (iterTotalTokens config probes lps)
      (iterBeamWidth config probes lps) (bfsK config) pendDepth)

/-- The loop over the later blocks, with so many of them left. -/
def bfsLoop : Nat → Nat → BuildState S → Option (BuildState S)
  | 0, _, state => some state
  | left + 1, pendDepth, state =>
    if state.pend = [] then some state
    else (bfsTurn config probes argpartition first later pendDepth state).bind
      (bfsLoop left (pendDepth + 1))

/-- `_build_tree_from_block1` up to the end of the expansion. -/
def buildTreeFromBlock1 : Option (BuildState S) :=
  let lps := firstLps config first
  (blockOne config probes first (iterBeamWidth config probes lps)).bind
    (bfsLoop config probes argpartition first later (iterMaxBlocks config probes lps - 1) 1)

end builder

end Numpy

end SpecBlock.Building
