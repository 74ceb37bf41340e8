import SpecBlock.Building.NumpyTree
import SpecBlock.Building.SlotPolicy

/-!
# The host builder

The builder for arrays in host memory expands block 1 and one later block. Block 1 writes the greedy
chain and behind it the alternatives of each slot that branches. The heads of the branching slots,
the alternatives and, unless the path gives up, the end of the chain become pending. The later block
writes a chain for each pending leaf, and behind all chains the alternatives of each pair of a leaf
and a slot that branches, up to the first slot of the leaf that gives up where the table has no
children for that.

Its rows are those of the larger numpy builder. Rows are written one behind the other, so the
buffers are lists, and sums are exact. The numbers of children are given; the tables of the best
tokens are as wide as the largest of them.
-/

namespace SpecBlock.Building.Host
open Segments

variable {S : Type} [AddCommGroup S]

section block1

variable (draft : DraftBlock1 S) (topks : Nat → Nat) (K giveUpClass : Nat)

/-- `give_up` of `_walk_rank_slots`. -/
def walkGiveUp : Bool :=
  ((List.range K).map draft.rankPreds).find? (fun rank => rank != 0) == some giveUpClass

/-- `active_slots`. -/
def activeSlots : List Nat := (List.range K).filter (fun k => 1 < topks k)

/-- `slot_expanded` and `alt_within`, entry by entry. -/
def slotExpanded : List (Nat × Nat) :=
  ((activeSlots topks K).flatMap (fun k => List.replicate (topks k - 1) k)).zip
    ((activeSlots topks K).flatMap (fun k => List.range' 1 (topks k - 1)))

/-- `_expand_block1`, with the number of children of each slot. -/
def expandBlock1 : BuildState S :=
  let chain := (List.range K).map (Numpy.chainRow draft)
  let expanded := slotExpanded topks K
  let rows := chain ++ expanded.map (fun alt => Numpy.altRow draft chain alt.1 alt.2)
  let pend := (activeSlots topks K).map (Numpy.greedyPend draft rows) ++
    (expanded.zipIdx K).map (Numpy.altPend draft rows)
  let hitched :=
    if !walkGiveUp draft K giveUpClass && !((pend.map PendRow.nodeIndex).contains (K - 1)) then
      [{ Numpy.greedyPend draft rows (K - 1) with tttValid := K }]
    else []
  ⟨rows, pend ++ hitched⟩

end block1

section bfs

variable (settings : SlotSettings S) (draft : DraftNext S) (topks : Nat → Nat → Nat) (K : Nat)

omit [AddCommGroup S] in
/-- `stop_at_np`: the first slot that gives up, when that class has no children. -/
def stopAt (leaf : Nat) : Nat :=
  if 0 < Policy.tableTopk settings (Policy.giveUpClass settings) then K
  else ((List.range K).find? (fun slot =>
    draft.rankPreds leaf slot == Policy.giveUpClass settings)).getD K

omit [AddCommGroup S] in
/-- `slot_active`. -/
def slotActive (leaf slot : Nat) : Bool :=
  decide (1 < topks leaf slot ∧ slot < stopAt settings draft K leaf)

omit [AddCommGroup S] in
/-- `pair_leaves` and `pair_slots`, entry by entry. -/
def activePairs (N : Nat) : List (Nat × Nat) :=
  (List.range N).flatMap (fun leaf =>
    ((List.range K).filter (slotActive settings draft topks K leaf)).map (fun slot => (leaf, slot)))

/-- `n_alt_per_pair`. -/
def nAltPerPair (pair : Nat × Nat) : Nat := topks pair.1 pair.2 - 1

/-- `leaf_exp`, `slot_exp` and `alt_within`, entry by entry. -/
def pairExpanded (pairs : List (Nat × Nat)) : List ((Nat × Nat) × Nat) :=
  let nAlt := fun pair => nAltPerPair topks (pairs.getD pair (0, 0))
  ((List.range pairs.length).flatMap (fun pair => List.replicate (nAlt pair) pair)).zipIdx.map
    (fun entry => (pairs.getD entry.1 (0, 0), entry.2 - before nAlt entry.1 + 1))

/-- The pairs that are expanded, each with the number of its alternatives. -/
def expandedTriples (N : Nat) : List (Nat × Nat × Nat) :=
  (activePairs settings draft topks K N).map (fun pair => (pair.1, pair.2, nAltPerPair topks pair))

/-- `_bfs_expand`, with the number of children of each leaf and slot: the rows of the tree. -/
def bfsExpand (pendDepth : Nat) (state : BuildState S) : List (TreeRow S) :=
  let N := state.pend.length
  let treeStart := state.rows.length
  let chains := state.rows ++
    (List.range (N * K)).map (Numpy.greedyChainRow draft K state.pend treeStart pendDepth)
  chains ++ (pairExpanded topks (activePairs settings draft topks K N)).map
    (Numpy.pairAltRow draft K state.pend treeStart pendDepth chains)

end bfs

end SpecBlock.Building.Host
