import SpecBlock.Building.LinearChain
import SpecBlock.Building.NumpyTree
import SpecBlock.Building.TreePrune

/-!
# Strict-linear mode

In strict-linear mode the constructor switches every kind of branching off and asks for a budget of
exactly the nodes of one chain: the slots of block 1 and those of each later block. The numpy
builder then writes one greedy chain block after block, always with one pending leaf, and nothing is
pruned. The result is checked before it is returned.

The check passes exactly when each block has slots, no leaf's first rank is beyond the table of
branching factors, and the chain has no more nodes than the walks of the finaliser reach.
-/

namespace SpecBlock.Building
open Segments

/-- `_strict_linear_nodes`: one chain through all blocks. -/
def strictLinearNodes (config : NumpyConfig) : Nat :=
  Numpy.blockK config + (config.maxBlocks - 1) * Numpy.bfsK config

/-- What `__init__` sets with `strict_linear`. -/
def strictLinearSettings (given : NumpyConfig) : NumpyConfig := { given with
  strictLinear := true
  beamWidth := 1
  rankSlotTopk := List.replicate given.rankClasses 1
  bfsSlotTopk := none
  adaptiveBudget := false
  adaptiveSlot0 := 0
  adaptiveAll := 0
  iterAdaptBudget := 0
  condMaxBlocks := 0
  slot0Beam := 0
  protectD1 := false
  stratBeam := 0
  hiddenSlotCap := 0
  diverseBeam := false }

/-- `__init__` with `strict_linear`: it raises when the budget is not the chain's. -/
def strictLinearInit (given : NumpyConfig) : Option NumpyConfig :=
  if (strictLinearSettings given).totalTokens = strictLinearNodes (strictLinearSettings given) then
    some (strictLinearSettings given)
  else none

/-- The settings that keep a chain from branching. -/
structure StrictSettings (config : NumpyConfig) : Prop where
  strict : config.strictLinear = true
  beam : config.beamWidth = 1
  table : config.rankSlotTopk = List.replicate config.rankClasses 1
  bfsTable : config.bfsSlotTopk = none
  noBudget : config.adaptiveBudget = false
  noSlot0 : config.adaptiveSlot0 = 0
  noAll : config.adaptiveAll = 0
  noIter : config.iterAdaptBudget = 0
  noCond : config.condMaxBlocks = 0
  noSlot0Beam : config.slot0Beam = 0
  nodes : config.totalTokens = strictLinearNodes config

theorem StrictSettings.of_init {given config : NumpyConfig}
    (accepted : strictLinearInit given = some config) : StrictSettings config := by
  unfold strictLinearInit at accepted
  split at accepted
  · obtain rfl := Option.some.inj accepted
    constructor <;> first | rfl | assumption
  · cases accepted

variable {S : Type}

/-- The tree buffers as arrays. -/
def toArrays (rows : List (TreeRow S)) : TreeArrays S where
  tokens := rows.map (fun row => (row.token : Int))
  parents := rows.map TreeRow.parent
  lps := rows.map TreeRow.lp
  ranks := rows.map (fun row => (row.rank : Int))
  blocks := rows.map (fun row => (row.block : Int))
  slots := rows.map (fun row => (row.slot : Int))

section builder

variable [AddCommGroup S] [LinearOrder S]

/-- The post-expansion pruning of `_build_tree_from_block1`. -/
def pruneToBudget [Inhabited S] (coveragePrune : Bool) (argsort : List S → List Nat) (budget : Nat)
    (rows : List (TreeRow S)) : Option (Nat × TreeArrays S) :=
  if budget < rows.length then
    pruneTreeNp coveragePrune argsort rows.length (toArrays rows) budget
  else some (rows.length, toArrays rows)

/-- What the numpy builder needs besides the draft's outputs: probabilities, the orders that numpy's
sorts leave open, and the token at the root. -/
structure BuilderContext (S : Type) where
  probes : Probes S
  argpartition : List S → Nat → List Nat
  argsort : List S → List Nat
  sampleToken : Nat

/-- `_build_tree_from_block1_dispatch` of the numpy builder in strict-linear mode, without the check
at its end: all ranks of block 1 are read as zero. -/
def BuildsStrictLinear [Inhabited S] (config : NumpyConfig) (context : BuilderContext S)
    (first : DraftBlock1 S) (later : Nat → DraftNext S) (buffers : TreeBuffers) : Prop :=
  ∃ state nNodes arrays,
    Numpy.buildTreeFromBlock1 config context.probes context.argpartition
      { first with rankPreds := fun _ => 0 } later = some state ∧
    pruneToBudget false context.argsort config.totalTokens state.rows = some (nNodes, arrays) ∧
    BuildTreeBuffersTriton nNodes (arrays.tokens.map Int.toNat) arrays.parents context.sampleToken
      buffers

/-- The greedy tokens of all blocks, one block after the other. -/
def greedyTokens (config : NumpyConfig) (first : DraftBlock1 S) (later : Nat → DraftNext S) :
    List Nat :=
  (List.range (Numpy.blockK config)).map first.greedyTarget ++
    (List.range (config.maxBlocks - 1)).flatMap (fun block =>
      (List.range (Numpy.bfsK config)).map ((later (block + 1)).greedyTarget 0))

/-- A state that is one chain, whose end is the one pending leaf while blocks are left. -/
structure ChainState (tokens : List Nat) (pending : Bool) (state : BuildState S) : Prop where
  parents : state.rows.map TreeRow.parent = chainParents state.rows.length
  tokens : state.rows.map TreeRow.token = tokens
  nonempty : 0 < state.rows.length
  pend : pending = true → ∃ row, state.pend = [row] ∧ row.nodeIndex + 1 = state.rows.length

section block1

variable {config : NumpyConfig} (settings : StrictSettings config)

include settings

theorem StrictSettings.table_le (rank : Nat) : config.rankSlotTopk.getD rank 0 ≤ 1 := by
  rw [settings.table, List.getD_eq_getElem?_getD, List.getElem?_replicate]
  split
  · exact Nat.le_refl 1
  · exact Nat.zero_le 1

omit [AddCommGroup S] [LinearOrder S] in
theorem StrictSettings.slotLoop_le (probes : Probes S) (draft : DraftBlock1 S) (remaining k : Nat) :
    ∀ topk ∈ Numpy.slotLoop config probes draft 1 k remaining, topk ≤ 1 := by
  induction remaining generalizing k with
  | zero =>
    intro topk member
    simp [Numpy.slotLoop] at member
  | succ remaining ih =>
    intro topk member
    have zeros : ∀ count, topk ∈ List.replicate count 0 → topk ≤ 1 := by
      intro count listed
      rw [List.eq_of_mem_replicate listed]
      exact Nat.zero_le 1
    rw [Numpy.slotLoop] at member
    by_cases start : k = 0
    · rw [if_pos start] at member
      rcases List.mem_cons.mp member with rfl | rest
      · simp [Numpy.slot0Bw, settings.noSlot0, settings.noSlot0Beam]
      · exact ih _ topk rest
    · simp only [if_neg start, settings.noAll, ne_eq, not_true_eq_false, if_false] at member
      split at member
      · exact zeros _ member
      · rcases List.mem_cons.mp member with rfl | rest
        · exact settings.table_le _
        · exact ih _ topk rest

omit [AddCommGroup S] [LinearOrder S] in
theorem StrictSettings.activeSlots_nil (probes : Probes S) (draft : DraftBlock1 S) :
    Numpy.activeSlots config (Numpy.slotTopksNp config probes draft 1) = [] := by
  refine List.filter_eq_nil_iff.mpr (fun k _ => ?_)
  have few : (Numpy.slotTopksNp config probes draft 1).getD k 0 ≤ 1 := by
    rw [Numpy.slotTopksNp, if_neg (by simp [settings.noBudget]), List.getD_eq_getElem?_getD]
    cases read : (Numpy.slotLoop config probes draft 1 0 (Numpy.blockK config))[k]? with
    | none => exact Nat.zero_le 1
    | some topk =>
      exact settings.slotLoop_le probes draft _ _ topk (List.mem_of_getElem? read)
  simpa using few

omit [AddCommGroup S] [LinearOrder S] in
theorem StrictSettings.blockOneFails_iff (probes : Probes S) (draft : DraftBlock1 S) :
    Numpy.blockOneFails config probes draft 1 ↔ Numpy.blockK config = 0 := by
  rw [Numpy.blockOneFails, settings.activeSlots_nil, settings.strict]
  simp

omit [LinearOrder S] in
theorem StrictSettings.blockOne_chain (probes : Probes S) (draft : DraftBlock1 S)
    (slots : 0 < Numpy.blockK config) : ∃ state,
      Numpy.blockOne config probes draft 1 = some state ∧
      state.rows.length = Numpy.blockK config ∧
      ChainState ((List.range (Numpy.blockK config)).map draft.greedyTarget) true state := by
  have nothing := settings.activeSlots_nil probes draft
  have runs : ¬ Numpy.blockOneFails config probes draft 1 := by
    rw [settings.blockOneFails_iff]
    omega
  have goesOn : Numpy.walkGiveUp config draft = false := by
    rw [Numpy.walkGiveUp, settings.strict]
    rfl
  simp only [Numpy.blockOne, if_neg runs, Numpy.slotExpanded, nothing, goesOn]
  refine ⟨_, rfl, by simp, ?_⟩
  constructor
  · simp only [List.flatMap_nil, List.zip_nil_left, List.map_nil, List.append_nil, List.map_map,
      List.length_map, List.length_range]
    rfl
  · simp only [List.flatMap_nil, List.zip_nil_left, List.map_nil, List.append_nil, List.map_map]
    rfl
  · simpa using slots
  · refine fun _ => ⟨_, rfl, ?_⟩
    simp only [Numpy.greedyPend, List.flatMap_nil, List.zip_nil_left, List.map_nil,
      List.append_nil, List.length_map, List.length_range]
    omega

end block1

omit [LinearOrder S] in
/-- A row of the chain that one leaf grows hangs from the row before it. -/
theorem greedyChainRow_parent {row : PendRow S} {treeStart K : Nat} (draft : DraftNext S)
    (depth : Nat) (last : row.nodeIndex + 1 = treeStart) {index : Nat} (inside : index < K) :
    (Numpy.greedyChainRow draft K [row] treeStart depth index).parent =
      ((treeStart + index : Nat) : Int) - 1 := by
  have leaf : index / K = 0 := Nat.div_eq_of_lt inside
  simp only [Numpy.greedyChainRow, leaf, Nat.zero_mul, Nat.sub_zero]
  split
  · simp [Numpy.pendAt]
    omega
  · rfl

section turn

/-- Whether a later block has slots and a branching factor for the first rank of its one leaf. -/
def blockRuns (config : NumpyConfig) (draft : DraftNext S) : Prop :=
  0 < Numpy.bfsK config ∧
    Numpy.firstRank (Numpy.bfsK config) (draft.rankPreds 0) < Numpy.rankToFactor.length

variable {config : NumpyConfig} (settings : StrictSettings config) (probes : Probes S)
  (argpartition : List S → Nat → List Nat) (first : DraftBlock1 S) (later : Nat → DraftNext S)

include settings

omit [AddCommGroup S] [LinearOrder S] in
theorem StrictSettings.activePairs_nil (draft : DraftNext S) (K N : Nat) :
    Numpy.activePairs config probes draft K N = [] := by
  refine List.flatMap_eq_nil_iff.mpr (fun leaf _ => List.map_eq_nil_iff.mpr ?_)
  refine List.filter_eq_nil_iff.mpr (fun slot _ => ?_)
  have few : Numpy.leafTopk config probes draft leaf slot ≤ 1 := by
    simp only [Numpy.leafTopk, settings.noAll, Numpy.bfsActiveSlotTopk, settings.bfsTable,
      Option.getD_none, if_true]
    exact settings.table_le _
  simp only [Numpy.slotActive, decide_eq_true_eq]
  omega

omit [AddCommGroup S] [LinearOrder S] in
theorem StrictSettings.stopAt_eq (draft : DraftNext S) (classes : 0 < config.rankClasses)
    (K leaf : Nat) : Numpy.stopAt config draft K leaf = K := by
  have last : 0 < (Numpy.bfsActiveSlotTopk config).getD (Numpy.giveUpClass config) 0 := by
    rw [Numpy.bfsActiveSlotTopk, settings.bfsTable, Option.getD_none, settings.table,
      Numpy.giveUpClass, List.getD_eq_getElem?_getD, List.getElem?_replicate, if_pos (by omega)]
    exact Nat.one_pos
  rw [Numpy.stopAt, if_pos last]

omit [AddCommGroup S] [LinearOrder S] in
/-- With one leaf a block fails when it lacks slots or a branching factor. -/
theorem StrictSettings.expandFails_iff (draft : DraftNext S) :
    Numpy.expandFails config probes draft (Numpy.bfsK config) 1 ↔ ¬ blockRuns config draft := by
  rw [Numpy.expandFails, settings.activePairs_nil, blockRuns]
  simp only [List.range_one, List.mem_singleton, exists_eq_left, List.not_mem_nil, false_and,
    exists_false, or_false]
  omega

omit [LinearOrder S] in
/-- The settings of an iteration are those of the constructor. -/
theorem StrictSettings.iteration (lps : List S) :
    Numpy.iterMaxBlocks config probes lps = config.maxBlocks ∧
      Numpy.iterBeamWidth config probes lps = 1 := by
  constructor
  · simp [Numpy.iterMaxBlocks, settings.noCond]
  · simp [Numpy.iterBeamWidth, settings.noIter, settings.beam]

/-- A block writes the chain of its one leaf behind the others, and the new end is pending unless
the blocks are used up. -/
theorem StrictSettings.bfsTurn_chain (classes : 0 < config.rankClasses) {tokens : List Nat}
    {state : BuildState S} (chain : ChainState tokens true state) (depth : Nat)
    (runs : blockRuns config (later depth)) : ∃ state',
      Numpy.bfsTurn config probes argpartition first later depth state = some state' ∧
      state'.rows.length = state.rows.length + Numpy.bfsK config ∧
      ChainState (tokens ++ (List.range (Numpy.bfsK config)).map ((later depth).greedyTarget 0))
        (decide (depth + 1 < config.maxBlocks)) state' := by
  obtain ⟨parents, tokensSame, nonempty, pending⟩ := chain
  obtain ⟨row, pend, last⟩ := pending rfl
  have iteration := settings.iteration probes (Numpy.firstLps config first)
  have slots := runs.1
  have noFailure : ¬ Numpy.expandFails config probes (later depth) (Numpy.bfsK config) 1 := by
    rw [settings.expandFails_iff]
    exact not_not.mpr runs
  have ends : Numpy.hitchLeaves config (later depth) (Numpy.bfsK config) 1 [] = [0] := by
    simp [Numpy.hitchLeaves, settings.stopAt_eq (later depth) classes]
  have unpruned : ∀ after : BuildState S, after.pend.length ≤ 1 →
      Numpy.pruneBeam argpartition config (Numpy.iterTotalTokens config probes
        (Numpy.firstLps config first)) 1 (Numpy.bfsK config) depth after = after := by
    intro after few
    rw [Numpy.pruneBeam]
    refine if_neg ?_
    omega
  have expanded : Numpy.pairExpanded config probes (later depth) [] = [] := by
    simp [Numpy.pairExpanded]
  simp only [Numpy.bfsTurn, Numpy.expand, iteration.1, iteration.2, pend, List.length_singleton,
    if_neg noFailure, settings.activePairs_nil, expanded, ends, List.zipIdx_nil, List.map_nil,
    List.append_nil, List.map_cons, List.nil_append, Option.map_some, Nat.one_mul]
  refine ⟨_, rfl, ?_, ?_⟩
  · rw [unpruned _ (by simp only; split <;> simp)]
    simp
  · rw [unpruned _ (by simp only; split <;> simp)]
    constructor
    · simp only [List.map_append, List.map_map, List.length_append, List.length_map,
        List.length_range, parents, chainParents_add]
      congr 1
      refine List.map_congr_left (fun index listed => ?_)
      exact greedyChainRow_parent (later depth) depth last (List.mem_range.mp listed)
    · simp only [List.map_append, List.map_map, tokensSame]
      congr 1
      refine List.map_congr_left (fun index listed => ?_)
      have inside := List.mem_range.mp listed
      simp [Numpy.greedyChainRow, Nat.div_eq_of_lt inside]
    · simp only [List.length_append]
      omega
    · simp only [decide_eq_true_eq, List.length_append, List.length_map, List.length_range]
      intro more
      rw [if_neg (by omega)]
      refine ⟨_, rfl, ?_⟩
      simp only [Numpy.pairPend]
      omega

/-- A block without slots, or without a branching factor for its leaf, raises. -/
theorem StrictSettings.bfsTurn_none {tokens : List Nat} {state : BuildState S}
    (chain : ChainState tokens true state) (depth : Nat)
    (fails : ¬ blockRuns config (later depth)) :
    Numpy.bfsTurn config probes argpartition first later depth state = none := by
  obtain ⟨row, pend, -⟩ := chain.pend rfl
  have failure := (settings.expandFails_iff probes (later depth)).mpr fails
  simp [Numpy.bfsTurn, Numpy.expand, pend, failure]

/-- When every block left runs, the loop ends with the chain of all of them. -/
theorem StrictSettings.bfsLoop_chain (classes : 0 < config.rankClasses) (left : Nat)
    {depth : Nat} {tokens : List Nat} {state : BuildState S} (blocks : depth + left = config.maxBlocks)
    (chain : ChainState tokens (decide (depth < config.maxBlocks)) state)
    (runs : ∀ block, depth ≤ block → block < config.maxBlocks → blockRuns config (later block)) :
    ∃ final, Numpy.bfsLoop config probes argpartition first later left depth state = some final ∧
      final.rows.length = state.rows.length + left * Numpy.bfsK config ∧
      ChainState (tokens ++ (List.range left).flatMap (fun block =>
        (List.range (Numpy.bfsK config)).map ((later (depth + block)).greedyTarget 0))) false final := by
  induction left generalizing depth tokens state with
  | zero =>
    have done : ¬ depth < config.maxBlocks := by omega
    rw [decide_eq_false done] at chain
    exact ⟨state, rfl, by simp, by simpa using chain⟩
  | succ left ih =>
    have more : depth < config.maxBlocks := by omega
    rw [decide_eq_true more] at chain
    obtain ⟨row, pend, -⟩ := chain.pend rfl
    obtain ⟨next, turned, longer, nextChain⟩ := settings.bfsTurn_chain probes argpartition first later
      classes chain depth (runs depth (Nat.le_refl depth) more)
    obtain ⟨final, ran, length, finalChain⟩ := ih (by omega) nextChain
      (fun block from' low => runs block (by omega) low)
    refine ⟨final, ?_, ?_, ?_⟩
    · rw [Numpy.bfsLoop, if_neg (by simp [pend]), turned]
      exact ran
    · rw [length, longer, Nat.succ_mul]
      omega
    · rw [List.range_succ_eq_map, List.flatMap_cons, List.flatMap_map, Nat.add_zero,
        ← List.append_assoc]
      have shifted : (List.range left).flatMap (fun block =>
            (List.range (Numpy.bfsK config)).map ((later (depth + Nat.succ block)).greedyTarget 0)) =
          (List.range left).flatMap (fun block =>
            (List.range (Numpy.bfsK config)).map ((later (depth + 1 + block)).greedyTarget 0)) := by
        refine List.flatMap_congr (fun block _ => ?_)
        rw [Nat.succ_eq_add_one, Nat.add_assoc, Nat.add_comm 1 block]
      rw [shifted]
      exact finalChain

theorem StrictSettings.bfsLoop_runs (classes : 0 < config.rankClasses) (left : Nat)
    {depth : Nat} {tokens : List Nat} {state final : BuildState S}
    (blocks : depth + left = config.maxBlocks)
    (chain : ChainState tokens (decide (depth < config.maxBlocks)) state)
    (ran : Numpy.bfsLoop config probes argpartition first later left depth state = some final) :
    ∀ block, depth ≤ block → block < config.maxBlocks → blockRuns config (later block) := by
  induction left generalizing depth tokens state with
  | zero =>
    intro block low high
    omega
  | succ left ih =>
    have more : depth < config.maxBlocks := by omega
    rw [decide_eq_true more] at chain
    obtain ⟨row, pend, -⟩ := chain.pend rfl
    rw [Numpy.bfsLoop, if_neg (by simp [pend])] at ran
    have here : blockRuns config (later depth) := by
      by_contra fails
      rw [settings.bfsTurn_none probes argpartition first later chain depth fails] at ran
      cases ran
    obtain ⟨next, turned, -, nextChain⟩ := settings.bfsTurn_chain probes argpartition first later
      classes chain depth here
    rw [turned] at ran
    intro block low high
    rcases Nat.eq_or_lt_of_le low with rfl | later'
    · exact here
    · exact ih (by omega) nextChain ran block later' high

end turn

section result

variable [Inhabited S]

/-- Strict-linear mode meets its own check: the builder returns, and whatever it returns has the
greedy tokens behind the root and passes. -/
def StrictLinearReturns (config : NumpyConfig) (context : BuilderContext S) (first : DraftBlock1 S)
    (later : Nat → DraftNext S) : Prop :=
  (∃ buffers, BuildsStrictLinear config context first later buffers) ∧
  ∀ buffers, BuildsStrictLinear config context first later buffers →
    buffers.treeTokens = context.sampleToken :: greedyTokens config first later ∧
      validateStrictLinearTree (strictLinearNodes config) buffers = true

/-- Each block has slots and a branching factor for its leaf, and the walks of the finaliser reach
the root from the end of the chain. -/
def ChainFits (config : NumpyConfig) (later : Nat → DraftNext S) : Prop :=
  0 < Numpy.blockK config ∧
  (∀ block, 1 ≤ block → block < config.maxBlocks → blockRuns config (later block)) ∧
  strictLinearNodes config ≤ maxTreeDepth

variable {config : NumpyConfig} {context : BuilderContext S} {first : DraftBlock1 S}
  {later : Nat → DraftNext S}

omit [AddCommGroup S] [LinearOrder S] [Inhabited S] in
theorem toArrays_chain {tokens : List Nat} {pending : Bool} {state : BuildState S}
    (chain : ChainState tokens pending state) :
    ((toArrays state.rows).tokens.map Int.toNat).take state.rows.length = tokens ∧
      (toArrays state.rows).parents.take state.rows.length = chainParents state.rows.length := by
  constructor
  · rw [List.take_of_length_le (by simp [toArrays]), ← chain.tokens]
    simp [toArrays]
  · rw [List.take_of_length_le (by simp [toArrays]), ← chain.parents]
    rfl

/-- The builder returns when every block runs, and then it finalises one chain. -/
theorem StrictSettings.builds_iff (settings : StrictSettings config) (blocks : 1 ≤ config.maxBlocks)
    (classes : 0 < config.rankClasses) (buffers : TreeBuffers) :
    BuildsStrictLinear config context first later buffers ↔
      (0 < Numpy.blockK config ∧
        ∀ block, 1 ≤ block → block < config.maxBlocks → blockRuns config (later block)) ∧
      Finalized (greedyTokens config first later) (chainParents (strictLinearNodes config))
        context.sampleToken maxTreeDepth Batch.maximum buffers := by
  have iteration := settings.iteration context.probes
    (Numpy.firstLps config { first with rankPreds := fun _ => 0 })
  by_cases slots : 0 < Numpy.blockK config
  · obtain ⟨start, began, startLength, startChain⟩ := settings.blockOne_chain context.probes
      { first with rankPreds := fun _ => 0 } slots
    have flagged : ChainState ((List.range (Numpy.blockK config)).map first.greedyTarget)
        (decide (1 < config.maxBlocks)) start :=
      ⟨startChain.parents, startChain.tokens, startChain.nonempty, fun _ => startChain.pend rfl⟩
    have total : 1 + (config.maxBlocks - 1) = config.maxBlocks := by omega
    have starts : Numpy.buildTreeFromBlock1 config context.probes context.argpartition
        { first with rankPreds := fun _ => 0 } later = Numpy.bfsLoop config context.probes
          context.argpartition { first with rankPreds := fun _ => 0 } later (config.maxBlocks - 1) 1
          start := by
      simp only [Numpy.buildTreeFromBlock1, iteration.1, iteration.2, began, Option.bind_some]
    have ends := settings.bfsLoop_chain context.probes context.argpartition
      { first with rankPreds := fun _ => 0 } later classes (config.maxBlocks - 1) total flagged
    constructor
    · rintro ⟨state, nNodes, arrays, ran, pruned, finalized⟩
      rw [starts] at ran
      have runs := settings.bfsLoop_runs context.probes context.argpartition
        { first with rankPreds := fun _ => 0 } later classes (config.maxBlocks - 1) total flagged ran
      obtain ⟨final, reached, length, chain⟩ := ends runs
      obtain rfl := Option.some.inj (ran.symm.trans reached)
      rw [startLength] at length
      rw [pruneToBudget, if_neg (by rw [settings.nodes, length, strictLinearNodes]; omega)] at pruned
      obtain ⟨rfl, rfl⟩ := Prod.mk.inj (Option.some.inj pruned)
      obtain ⟨tokens, parents⟩ := toArrays_chain chain
      rw [BuildTreeBuffersTriton, tokens, parents, length] at finalized
      simp only [Nat.add_comm 1] at finalized
      exact ⟨⟨slots, runs⟩, finalized⟩
    · rintro ⟨⟨-, runs⟩, finalized⟩
      obtain ⟨final, reached, length, chain⟩ := ends runs
      rw [startLength] at length
      refine ⟨final, _, _, starts.trans reached, if_neg ?_, ?_⟩
      · rw [settings.nodes, length, strictLinearNodes]
        omega
      · obtain ⟨tokens, parents⟩ := toArrays_chain chain
        rw [BuildTreeBuffersTriton, tokens, parents, length]
        simp only [Nat.add_comm 1]
        exact finalized
  · constructor
    · rintro ⟨state, nNodes, arrays, ran, -, -⟩
      have fails : Numpy.blockOne config context.probes { first with rankPreds := fun _ => 0 } 1 =
          none := by
        rw [Numpy.blockOne]
        exact if_pos ((settings.blockOneFails_iff _ _).mpr (by omega))
      simp only [Numpy.buildTreeFromBlock1, iteration.2, fails, Option.bind_none] at ran
      cases ran
    · rintro ⟨⟨positive, -⟩, -⟩
      exact absurd positive slots

/-- Strict-linear mode meets its check exactly when the chain fits. -/
theorem StrictSettings.returns_iff (settings : StrictSettings config)
    (blocks : 1 ≤ config.maxBlocks) (classes : 0 < config.rankClasses) :
    StrictLinearReturns config context first later ↔ ChainFits config later := by
  have sized : (greedyTokens config first later).length = strictLinearNodes config := by
    have laters := spread_length (fun _ => Numpy.bfsK config) (config.maxBlocks - 1)
      (fun block => (later (block + 1)).greedyTarget 0)
    rw [before_const, spread] at laters
    rw [greedyTokens, List.length_append, laters, List.length_map, List.length_range]
    rfl
  have width : ∀ buffers, Finalized (greedyTokens config first later)
      (chainParents (strictLinearNodes config)) context.sampleToken maxTreeDepth Batch.maximum
      buffers → buffers.treeTokens = context.sampleToken :: greedyTokens config first later := by
    rintro buffers ⟨depth, mask, ri, -, -, -, rfl⟩
    rfl
  constructor
  · rintro ⟨⟨buffers, built⟩, checked⟩
    have valid := (checked buffers built).2
    obtain ⟨⟨slots, runs⟩, finalized⟩ := (settings.builds_iff blocks classes buffers).mp built
    refine ⟨slots, runs, ?_⟩
    by_contra long
    have rejected := linearTable.rejects (strictLinearNodes config) (Nat.lt_of_not_le long)
      finalized (by rw [width buffers finalized, List.length_cons, sized])
    rw [valid] at rejected
    cases rejected
  · rintro ⟨slots, runs, short⟩
    constructor
    · obtain ⟨buffers, finalized⟩ := exists_finalized (greedyTokens config first later)
        (chainParents (strictLinearNodes config)) context.sampleToken maxTreeDepth Batch.maximum
      exact ⟨buffers, (settings.builds_iff blocks classes buffers).mpr ⟨⟨slots, runs⟩, finalized⟩⟩
    · intro buffers built
      obtain ⟨-, finalized⟩ := (settings.builds_iff blocks classes buffers).mp built
      have tokens := width buffers finalized
      have encodes : (linearTable (strictLinearNodes config)).Encodes buffers :=
        finalized_encodes _ _ _ _ _ buffers (linearTable.shallow short)
          (fun depths _ depth member => Batch.le_maximum depths depth member) finalized
      refine ⟨tokens, linearTable.validates encodes ?_⟩
      rw [tokens, List.length_cons, sized]

/-- **Strict-linear mode and its own check.** For all settings that the constructor accepts, all
draft outputs and every order in which the finaliser's programs run, the builder returns one greedy
chain of the promised nodes that passes the check exactly when the chain fits. -/
theorem strictLinear_returns_iff (given config : NumpyConfig) (context : BuilderContext S)
    (first : DraftBlock1 S) (later : Nat → DraftNext S)
    (accepted : strictLinearInit given = some config) (blocks : 1 ≤ config.maxBlocks)
    (classes : 0 < config.rankClasses) :
    StrictLinearReturns config context first later ↔ ChainFits config later :=
  (StrictSettings.of_init accepted).returns_iff blocks classes

end result

end builder

/-- Settings for so many slots and blocks and a budget; strict-linear mode sets the rest. -/
def chainSettings (K maxBlocks totalTokens : Nat) : NumpyConfig where
  K := K
  treeK := none
  treeKBfs := none
  maxBlocks := maxBlocks
  beamWidth := 10
  totalTokens := totalTokens
  rankClasses := 4
  rankSlotTopk := [2, 4, 10, 0]
  bfsSlotTopk := none
  strictLinear := false
  adaptiveBudget := false
  slot0Beam := 0
  adaptiveSlot0 := 0
  adaptiveAll := 0
  iterAdaptBudget := 0
  condMaxBlocks := 0
  diverseBeam := false
  hiddenSlotCap := 0
  stratBeam := 0
  protectD1 := false
  protectD1N := 3

/-- Small probabilities, and sorts that leave the order as it is. -/
def plainContext : BuilderContext Int where
  probes := ⟨fun _ _ => false, fun _ _ => false, fun _ _ => false, fun _ _ _ _ high => high⟩
  argpartition := fun keys _ => List.range keys.length
  argsort := fun keys => List.range keys.length
  sampleToken := 7

/-- A first block of one rank. -/
def plainFirst : DraftBlock1 Int where
  rankPreds := fun _ => 1
  greedyTarget := fun slot => slot
  greedyLps := fun _ => -1
  topTarget := fun _ column => column
  topLps := fun _ _ => -2
  roundedAlloc := fun _ => 1

/-- Later blocks of one rank. -/
def plainLater : Nat → DraftNext Int := fun _ => {
  rankPreds := fun _ _ => 1
  greedyTarget := fun _ slot => slot
  greedyLps := fun _ _ => -1
  topTarget := fun _ _ column => column
  topLps := fun _ _ _ => -2 }

/-- A chain of twelve nodes passes. -/
theorem strictLinear_returns_twelve :
    StrictLinearReturns (strictLinearSettings (chainSettings 4 3 12)) plainContext plainFirst
      plainLater :=
  (strictLinear_returns_iff (chainSettings 4 3 12) (strictLinearSettings (chainSettings 4 3 12))
    plainContext plainFirst plainLater (if_pos (by decide)) (by decide) (by decide)).mpr
    ⟨by decide, fun _ _ _ => ⟨Nat.succ_pos 3, Nat.lt_of_sub_pos (Nat.succ_pos 2)⟩, by decide⟩

/-- A chain of twenty-four nodes is accepted by the constructor and raises. -/
theorem strictLinear_rejects_own_chain :
    strictLinearInit (chainSettings 8 3 24) = some (strictLinearSettings (chainSettings 8 3 24)) ∧
      ¬ StrictLinearReturns (strictLinearSettings (chainSettings 8 3 24)) plainContext plainFirst
        plainLater := by
  have accepted : strictLinearInit (chainSettings 8 3 24) =
      some (strictLinearSettings (chainSettings 8 3 24)) := if_pos (by decide)
  refine ⟨accepted, fun returned => ?_⟩
  have fits := ((StrictSettings.of_init accepted).returns_iff (by decide) (by decide)).mp returned
  exact absurd fits.2.2 (by decide)

end SpecBlock.Building
