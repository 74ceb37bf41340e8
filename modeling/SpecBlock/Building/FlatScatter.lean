import Mathlib.Data.List.Perm.Lattice
import SpecBlock.Building.BatchedBlock1

/-!
# The later block of a batch

The leaves of all requests are expanded by one launch, with a program for every row of the inputs.
Tables say for each program whether its row is a real leaf, of which request, and where the
alternatives of that leaf begin behind those of the earlier leaves of its request. Two callers
lay the rows out: one packs the leaves of all requests one after the other, the other gives each
request as many rows as a bucket has.

Whatever the layout is, the launch fills behind each request's block 1 the rows that the host
builder appends: the chains of all leaves and then their alternatives.
-/

namespace SpecBlock.Building.Sglang
open Segments Stores FilledRows Triton

variable {S : Type}

/-- The tables that the programs of a flat launch read. -/
structure FlatTables where
  validLeaf : Nat → Bool
  bidxPerLeaf : Nat → Nat
  leafLocal : Nat → Nat
  treeStartPerReq : Nat → Nat
  altBasePerReq : Nat → Nat
  cumAltExclPerLeaf : Nat → Nat

section launch

variable [AddCommGroup S] (sizes : LaunchSizes) (arrays : BfsArrays S) (pendCumLps : Nat → S)
  (pendNodeIndices : Nat → Nat) (tables : FlatTables) (strideNodes stridePend : Nat)

/-- What a program of a flat launch loads. -/
def flatScalars (pid : Nat) : LeafScalars S :=
  let bidx := tables.bidxPerLeaf pid
  let leafLocal := tables.leafLocal pid
  { valid := tables.validLeaf pid
    rowStart := bidx * strideNodes
    chainBase := tables.treeStartPerReq bidx + leafLocal * sizes.K
    altBase := tables.altBasePerReq bidx + tables.cumAltExclPerLeaf pid
    pendNode := pendNodeIndices (bidx * stridePend + leafLocal)
    pendCumLp := pendCumLps (bidx * stridePend + leafLocal) }

/-- `_bfs_scatter_kernel_flat` over so many programs. -/
def bfsScatterKernelFlat (programs : Nat) : List (Nat × TreeRow S) :=
  (List.range programs).flatMap (fun pid => scatterLeaf sizes arrays pid
    (flatScalars sizes pendCumLps pendNodeIndices tables strideNodes stridePend pid))

end launch

section routes

variable (sizes : LaunchSizes) (arrays : BfsArrays S)

/-- A layout of the leaves of a batch: the program of each leaf of each request, and how many
programs there are. -/
structure Layout where
  B : Nat
  leaves : Nat → Nat
  programs : Nat
  pidOf : Nat → Nat → Nat

/-- The alternatives of a request's leaf. -/
def Layout.alts (layout : Layout) (b leaf : Nat) : Nat :=
  before (nAltSlot sizes arrays (layout.pidOf b leaf)) sizes.K

/-- The tables route every leaf to its request, and mark no other row as a leaf. -/
structure Routes (layout : Layout) (tables : FlatTables) : Prop where
  inside : ∀ b < layout.B, ∀ leaf < layout.leaves b, layout.pidOf b leaf < layout.programs
  valid : ∀ b < layout.B, ∀ leaf < layout.leaves b, tables.validLeaf (layout.pidOf b leaf) = true
  request : ∀ b < layout.B, ∀ leaf < layout.leaves b, tables.bidxPerLeaf (layout.pidOf b leaf) = b
  place : ∀ b < layout.B, ∀ leaf < layout.leaves b, tables.leafLocal (layout.pidOf b leaf) = leaf
  offset : ∀ b < layout.B, ∀ leaf < layout.leaves b,
    tables.cumAltExclPerLeaf (layout.pidOf b leaf) = before (layout.alts sizes arrays b) leaf
  altBase : ∀ b < layout.B, tables.altBasePerReq b =
    tables.treeStartPerReq b + layout.leaves b * sizes.K
  only : ∀ pid < layout.programs, tables.validLeaf pid = true →
    ∃ b < layout.B, ∃ leaf < layout.leaves b, layout.pidOf b leaf = pid

variable {sizes arrays} {layout : Layout} {tables : FlatTables}

/-- The programs of real leaves are those of the requests' leaves, in some order. -/
theorem Routes.programs_perm (routes : Routes sizes arrays layout tables) :
    ((List.range layout.programs).filter tables.validLeaf).Perm
      ((List.range layout.B).flatMap (fun b =>
        (List.range (layout.leaves b)).map (layout.pidOf b))) := by
  refine (List.perm_ext_iff_of_nodup (List.nodup_range.filter _) ?_).mpr ?_
  · refine List.nodup_flatMap.mpr ⟨?_, ?_⟩
    · intro b member
      refine List.Nodup.map_on ?_ List.nodup_range
      intro leaf listed leaf' listed' same
      have low := List.mem_range.mp member
      rw [← routes.place b low leaf (List.mem_range.mp listed), same,
        routes.place b low leaf' (List.mem_range.mp listed')]
    · refine List.nodup_range.pairwise_of_forall_ne ?_
      intro b member b' member' different pid here here'
      obtain ⟨leaf, listed, rfl⟩ := List.mem_map.mp here
      obtain ⟨leaf', listed', same⟩ := List.mem_map.mp here'
      apply different
      rw [← routes.request b (List.mem_range.mp member) leaf (List.mem_range.mp listed), ← same,
        routes.request b' (List.mem_range.mp member') leaf' (List.mem_range.mp listed')]
  · intro pid
    simp only [List.mem_filter, List.mem_range, List.mem_flatMap, List.mem_map]
    constructor
    · rintro ⟨low, real⟩
      exact routes.only pid low real
    · rintro ⟨b, low, leaf, listed, rfl⟩
      exact ⟨routes.inside b low leaf listed, routes.valid b low leaf listed⟩

end routes

section host

variable (sizes : LaunchSizes) (arrays : BfsArrays S) (layout : Layout) (b : Nat)

/-- The rows of a request's leaves, as the host builder gets them. -/
def hostNext : DraftNext S where
  rankPreds := fun leaf slot => arrays.allRankPreds (layout.pidOf b leaf * sizes.K + slot)
  greedyTarget := fun leaf slot => arrays.allGreedyTarget (layout.pidOf b leaf * sizes.K + slot)
  greedyLps := fun leaf slot => arrays.allGreedyLps (layout.pidOf b leaf * sizes.K + slot)
  topTarget := fun leaf slot j => arrays.topTargetAll
    (layout.pidOf b leaf * sizes.K * sizes.maxTopk + slot * sizes.maxTopk + j)
  topLps := fun leaf slot j => arrays.topLpsAll
    (layout.pidOf b leaf * sizes.K * sizes.maxTopk + slot * sizes.maxTopk + j)

/-- The counts of a request's leaves. -/
def hostTopks (leaf slot : Nat) : Nat := slotTopks sizes arrays (layout.pidOf b leaf) slot

end host

section hostRows

variable [AddCommGroup S] {settings : SlotSettings S} {draft : DraftNext S}
  {topks : Nat → Nat → Nat} {K pendDepth : Nat} {state : BuildState S}

/-- The rows that the host appends for the chains. -/
def hostChains (draft : DraftNext S) (K pendDepth : Nat) (state : BuildState S) :
    List (TreeRow S) :=
  (List.range (state.pend.length * K)).map
    (Numpy.greedyChainRow draft K state.pend state.rows.length pendDepth)

/-- The rows that the host appends for the alternatives. -/
def hostAlts (draft : DraftNext S) (topks : Nat → Nat → Nat) (K pendDepth : Nat)
    (state : BuildState S) : List (TreeRow S) :=
  (List.range state.pend.length).flatMap (fun leaf =>
    spread (fun slot => topks leaf slot - 1) K (fun slot j =>
      Numpy.pairAltRow draft K state.pend state.rows.length pendDepth
        (state.rows ++ hostChains draft K pendDepth state) ((leaf, slot), j + 1)))

omit [AddCommGroup S] in
/-- The pairs of the host with the columns of their alternatives. -/
theorem pairExpanded_eq (topks : Nat → Nat → Nat) (pairs : List (Nat × Nat)) :
    Host.pairExpanded topks pairs = pairs.flatMap (fun pair =>
      (List.range (topks pair.1 pair.2 - 1)).map (fun j => (pair, j + 1))) := by
  have repeated : (List.range pairs.length).flatMap (fun pair => List.replicate
      (Host.nAltPerPair topks (pairs.getD pair (0, 0))) pair) =
      spread (fun pair => Host.nAltPerPair topks (pairs.getD pair (0, 0))) pairs.length
        (fun pair _ => pair) := by
    refine List.flatMap_congr (fun pair _ => ?_)
    rw [List.map_const', List.length_range]
  simp only [Host.pairExpanded]
  rw [repeated, zipIdx_spread, map_spread, spread]
  simp only [Nat.add_sub_cancel_left]
  have whole : (List.range pairs.length).map (fun index => pairs.getD index (0, 0)) = pairs := by
    apply List.ext_getElem (by simp)
    intro index low high
    simp [List.getD_eq_getElem?_getD, high]
  have entries := congrArg (fun pairs => pairs.flatMap (fun pair =>
    (List.range (topks pair.1 pair.2 - 1)).map (fun j => (pair, j + 1)))) whole
  rwa [List.flatMap_map] at entries

omit [AddCommGroup S] in
theorem stopAt_of_children (children : 0 < Policy.tableTopk settings (Policy.giveUpClass settings))
    (leaf : Nat) : Host.stopAt settings draft K leaf = K := if_pos children

omit [AddCommGroup S] in
/-- The pairs that the host expands, leaf by leaf and slot by slot. -/
theorem activePairs_expanded
    (children : 0 < Policy.tableTopk settings (Policy.giveUpClass settings)) (N : Nat) :
    Host.pairExpanded topks (Host.activePairs settings draft topks K N) =
      (List.range N).flatMap (fun leaf => spread (fun slot => topks leaf slot - 1) K (fun slot j =>
        ((leaf, slot), j + 1))) := by
  rw [pairExpanded_eq, Host.activePairs, List.flatMap_assoc]
  refine List.flatMap_congr (fun leaf _ => ?_)
  have active : (List.range K).filter (Host.slotActive settings draft topks K leaf) =
      (List.range K).filter (fun slot => decide (1 < topks leaf slot)) := by
    refine List.filter_congr (fun slot member => decide_eq_decide.mpr ?_)
    rw [stopAt_of_children children]
    exact and_iff_left (List.mem_range.mp member)
  rw [active, List.flatMap_map]
  refine flatMap_filter_quiet _ _ _ (fun slot inactive => ?_)
  have few := of_decide_eq_false inactive
  have none : topks leaf slot - 1 = 0 := by omega
  simp only [none, List.range_zero, List.map_nil]

/-- What the host appends: the chains of all leaves, and then their alternatives. -/
theorem bfsExpand_eq (children : 0 < Policy.tableTopk settings (Policy.giveUpClass settings)) :
    Host.bfsExpand settings draft topks K pendDepth state =
      state.rows ++ (hostChains draft K pendDepth state ++
        hostAlts draft topks K pendDepth state) := by
  simp only [Host.bfsExpand, activePairs_expanded children, List.map_flatMap, map_spread,
    List.append_assoc]
  rfl

theorem greedyChainRow_at {leaf slot : Nat} (inside : slot < K) :
    Numpy.greedyChainRow draft K state.pend state.rows.length pendDepth (leaf * K + slot) = {
      token := draft.greedyTarget leaf slot
      parent := if slot = 0 then ((Numpy.pendAt state.pend leaf).1 : Int)
        else ((state.rows.length + leaf * K + slot : Nat) : Int) - 1
      lp := Cuda.runningSum (draft.greedyLps leaf) (slot + 1) + (Numpy.pendAt state.pend leaf).2
      rank := draft.rankPreds leaf slot
      block := pendDepth
      slot := slot } := by
  have row : (leaf * K + slot) / K = leaf := address_div inside
  have column : leaf * K + slot - leaf * K = slot := Nat.add_sub_cancel_left ..
  simp only [Numpy.greedyChainRow, row, column, Nat.add_assoc]

/-- The log-probability of a leaf's chain up to a slot, in the buffer. -/
theorem lpAt_hostChains {leaf slot : Nat} (listed : leaf < state.pend.length) (inside : slot < K) :
    Numpy.lpAt (state.rows ++ hostChains draft K pendDepth state)
        (state.rows.length + (leaf * K + slot)) =
      Cuda.runningSum (draft.greedyLps leaf) (slot + 1) + (Numpy.pendAt state.pend leaf).2 := by
  have place : leaf * K + slot < state.pend.length * K := address_lt listed inside
  have stored : (state.rows ++ hostChains draft K pendDepth state)[state.rows.length +
      (leaf * K + slot)]? = some (Numpy.greedyChainRow draft K state.pend state.rows.length pendDepth
        (leaf * K + slot)) := by
    rw [List.getElem?_append_right (Nat.le_add_right _ _), Nat.add_sub_cancel_left, hostChains,
      List.getElem?_map, List.getElem?_range place, Option.map_some]
  rw [Numpy.lpAt, stored, Option.map_some, Option.getD_some, greedyChainRow_at inside]

theorem hostChains_eq : hostChains draft K pendDepth state =
    spread (fun _ => K) state.pend.length (fun leaf slot => Numpy.greedyChainRow draft K state.pend
      state.rows.length pendDepth (leaf * K + slot)) := by
  rw [hostChains, ← before_const, ← spread_places, map_spread]
  refine spread_congr (fun _ _ => rfl) (fun leaf _ slot _ => ?_)
  rw [before_const]

end hostRows

section fill

variable [AddCommGroup S] {settings : SlotSettings S} {sizes : LaunchSizes} {arrays : BfsArrays S}
  {layout : Layout} {tables : FlatTables} {pendCumLps : Nat → S} {pendNodeIndices : Nat → Nat}
  {strideNodes stridePend : Nat} {states : Nat → BuildState S}

/-- The buffers hold what block 1 made of the requests: where their rows end, how many leaves are
pending, and the leaves' nodes and log-probabilities. The counts fit the tables, and the tables the
tile. -/
structure HoldsBatch (sizes : LaunchSizes) (arrays : BfsArrays S) (layout : Layout)
    (tables : FlatTables) (pendCumLps : Nat → S) (pendNodeIndices : Nat → Nat) (stridePend : Nat)
    (states : Nat → BuildState S) : Prop where
  starts : ∀ b < layout.B, tables.treeStartPerReq b = (states b).rows.length
  leaves : ∀ b < layout.B, layout.leaves b = (states b).pend.length
  nodes : ∀ b < layout.B, ∀ leaf row, (states b).pend[leaf]? = some row →
    pendNodeIndices (b * stridePend + leaf) = row.nodeIndex
  lps : ∀ b < layout.B, ∀ leaf row, (states b).pend[leaf]? = some row →
    pendCumLps (b * stridePend + leaf) = row.cumLp
  counts : ∀ b < layout.B, ∀ leaf < layout.leaves b, ∀ slot < sizes.K,
    hostTopks sizes arrays layout b leaf slot ≤ sizes.maxTopk
  tile : sizes.maxTopk ≤ 17

section leaf

variable {b leaf : Nat}

theorem flatScalars_at (routes : Routes sizes arrays layout tables)
    (holds : HoldsBatch sizes arrays layout tables pendCumLps pendNodeIndices stridePend states)
    (low : b < layout.B) (listed : leaf < layout.leaves b) :
    flatScalars sizes pendCumLps pendNodeIndices tables strideNodes stridePend
        (layout.pidOf b leaf) = {
      valid := true
      rowStart := b * strideNodes
      chainBase := (states b).rows.length + leaf * sizes.K
      altBase := (states b).rows.length + (states b).pend.length * sizes.K +
        before (layout.alts sizes arrays b) leaf
      pendNode := (Numpy.pendAt (states b).pend leaf).1
      pendCumLp := (Numpy.pendAt (states b).pend leaf).2 } := by
  have within : leaf < (states b).pend.length := by rwa [← holds.leaves b low]
  have here := List.getElem?_eq_getElem within
  simp only [flatScalars, routes.valid b low leaf listed, routes.request b low leaf listed,
    routes.place b low leaf listed, routes.offset b low leaf listed, routes.altBase b low,
    holds.starts b low, holds.leaves b low, holds.nodes b low leaf _ here,
    holds.lps b low leaf _ here, Numpy.pendAt, here, Option.map_some, Option.getD_some]

theorem chainLane_at {slot : Nat} (inside : slot < sizes.K) (rowStart altBase : Nat) :
    chainLane sizes arrays (layout.pidOf b leaf) {
        valid := true
        rowStart := rowStart
        chainBase := (states b).rows.length + leaf * sizes.K
        altBase := altBase
        pendNode := (Numpy.pendAt (states b).pend leaf).1
        pendCumLp := (Numpy.pendAt (states b).pend leaf).2 } slot =
      (rowStart + ((states b).rows.length + leaf * sizes.K + slot),
        Numpy.greedyChainRow (hostNext sizes arrays layout b) sizes.K (states b).pend
          (states b).rows.length sizes.pendDepth (leaf * sizes.K + slot)) := by
  rw [greedyChainRow_at inside, chainLane, cumGreedyLps, cumsum_eq_runningSum,
    add_comm (Cuda.runningSum _ _)]
  rfl

theorem altLane_at {slot : Nat} (listed : leaf < (states b).pend.length) (inside : slot < sizes.K)
    (rowStart altBase j : Nat) :
    altLane sizes arrays (layout.pidOf b leaf) {
        valid := true
        rowStart := rowStart
        chainBase := (states b).rows.length + leaf * sizes.K
        altBase := altBase
        pendNode := (Numpy.pendAt (states b).pend leaf).1
        pendCumLp := (Numpy.pendAt (states b).pend leaf).2 } slot j =
      (rowStart + (altBase + (before (nAltSlot sizes arrays (layout.pidOf b leaf)) slot + j)),
        Numpy.pairAltRow (hostNext sizes arrays layout b) sizes.K (states b).pend
          (states b).rows.length sizes.pendDepth
          ((states b).rows ++ hostChains (hostNext sizes arrays layout b) sizes.K sizes.pendDepth
            (states b)) ((leaf, slot), j + 1)) := by
  rw [altLane, cumAltSlotExcl_eq, cumGreedyLpsExcl, cumGreedyLps, cumsum_sub_self, Numpy.pairAltRow]
  cases slot with
  | zero =>
    simp only [Cuda.runningSum, add_zero, Nat.lt_irrefl, if_false, if_true]
    rfl
  | succ slot =>
    have chained : Numpy.lpAt ((states b).rows ++ hostChains (hostNext sizes arrays layout b) sizes.K
        sizes.pendDepth (states b)) ((states b).rows.length + (leaf * sizes.K + slot)) = _ :=
      lpAt_hostChains listed (Nat.lt_of_succ_lt inside)
    have place : (states b).rows.length + leaf * sizes.K + (slot + 1) - 1 =
        (states b).rows.length + (leaf * sizes.K + slot) := by omega
    simp only [Nat.succ_pos, if_true, Nat.succ_ne_zero, if_false, place, chained]
    rw [add_comm (Cuda.runningSum _ _)]
    rfl

/-- What the program of a request's leaf stores: the rows of its chain and its alternatives. -/
theorem scatterLeaf_at (strideNodes : Nat) (routes : Routes sizes arrays layout tables)
    (holds : HoldsBatch sizes arrays layout tables pendCumLps pendNodeIndices stridePend states)
    (low : b < layout.B) (listed : leaf < layout.leaves b) :
    scatterLeaf sizes arrays (layout.pidOf b leaf) (flatScalars sizes pendCumLps pendNodeIndices
        tables strideNodes stridePend (layout.pidOf b leaf)) =
      (List.range sizes.K).map (fun slot =>
        (b * strideNodes + ((states b).rows.length + leaf * sizes.K + slot),
          Numpy.greedyChainRow (hostNext sizes arrays layout b) sizes.K (states b).pend
            (states b).rows.length sizes.pendDepth (leaf * sizes.K + slot))) ++
      spread (fun slot => hostTopks sizes arrays layout b leaf slot - 1) sizes.K (fun slot j =>
        (b * strideNodes + ((states b).rows.length + (states b).pend.length * sizes.K +
            before (layout.alts sizes arrays b) leaf +
            (before (fun slot => hostTopks sizes arrays layout b leaf slot - 1) slot + j)),
          Numpy.pairAltRow (hostNext sizes arrays layout b) sizes.K (states b).pend
            (states b).rows.length sizes.pendDepth ((states b).rows ++ hostChains
              (hostNext sizes arrays layout b) sizes.K sizes.pendDepth (states b))
            ((leaf, slot), j + 1))) := by
  have within : leaf < (states b).pend.length := by rwa [← holds.leaves b low]
  have counts : nAltSlot sizes arrays (layout.pidOf b leaf) =
      fun slot => hostTopks sizes arrays layout b leaf slot - 1 := funext (fun slot => nAltSlot_eq)
  rw [flatScalars_at routes holds low listed, scatterLeaf, if_pos rfl, spread]
  congr 1
  · exact List.map_congr_left (fun slot member => chainLane_at (List.mem_range.mp member) _ _)
  · refine List.flatMap_congr (fun slot member => ?_)
    have inside := List.mem_range.mp member
    have count : hostTopks sizes arrays layout b leaf slot - 1 =
        nAltSlot sizes arrays (layout.pidOf b leaf) slot := nAltSlot_eq.symm
    rw [altColumns_fit (holds.counts b low leaf listed slot inside) holds.tile, ← counts, count]
    refine List.map_congr_left (fun j _ => ?_)
    rw [altLane_at within inside]

end leaf

/-- The rows that the host appends for a request. -/
def hostAppended (sizes : LaunchSizes) (arrays : BfsArrays S) (layout : Layout)
    (states : Nat → BuildState S) (b : Nat) : List (TreeRow S) :=
  hostChains (hostNext sizes arrays layout b) sizes.K sizes.pendDepth (states b) ++
    hostAlts (hostNext sizes arrays layout b) (hostTopks sizes arrays layout b) sizes.K
      sizes.pendDepth (states b)

/-- The stores for a request's leaves are the rows that the host appends, from where the request's
rows end. -/
theorem request_perm (strideNodes : Nat) (routes : Routes sizes arrays layout tables)
    (holds : HoldsBatch sizes arrays layout tables pendCumLps pendNodeIndices stridePend states)
    {b : Nat} (low : b < layout.B) :
    ((List.range (layout.leaves b)).flatMap (fun leaf => scatterLeaf sizes arrays
        (layout.pidOf b leaf) (flatScalars sizes pendCumLps pendNodeIndices tables strideNodes
          stridePend (layout.pidOf b leaf)))).Perm
      (placed (b * strideNodes + (states b).rows.length)
        (hostAppended sizes arrays layout states b)) := by
  have stores := List.flatMap_congr (fun leaf member => scatterLeaf_at strideNodes routes holds low
    (List.mem_range.mp member))
  rw [stores, hostAppended, placed_append]
  refine (List.flatMap_append_perm _ _ _).symm.trans (List.Perm.of_eq ?_)
  have chainLength : (hostChains (hostNext sizes arrays layout b) sizes.K sizes.pendDepth
      (states b)).length = (states b).pend.length * sizes.K := by
    rw [hostChains, List.length_map, List.length_range]
  congr 1
  · rw [hostChains_eq, placed_spread, holds.leaves b low, spread]
    refine List.flatMap_congr (fun leaf _ => List.map_congr_left (fun slot _ => ?_))
    rw [before_const]
    simp only [Nat.add_assoc]
  · have lengths : (fun leaf => (spread (fun slot => hostTopks sizes arrays layout b leaf slot - 1)
        sizes.K (fun slot j => Numpy.pairAltRow (hostNext sizes arrays layout b) sizes.K
          (states b).pend (states b).rows.length sizes.pendDepth ((states b).rows ++ hostChains
            (hostNext sizes arrays layout b) sizes.K sizes.pendDepth (states b))
          ((leaf, slot), j + 1))).length) = layout.alts sizes arrays b := by
      funext leaf
      rw [spread_length, Layout.alts]
      exact before_congr (fun slot _ => nAltSlot_eq.symm)
    rw [hostAlts, placed_flatMap, chainLength, lengths, holds.leaves b low]
    refine List.flatMap_congr (fun leaf _ => ?_)
    rw [placed_spread]
    refine spread_congr (fun _ _ => rfl) (fun slot _ j _ => ?_)
    simp only [Nat.add_assoc]

/-- **A flat launch fills behind each request's rows those that the host appends.** -/
theorem bfsScatterKernelFlat_fills (strideNodes : Nat)
    (routes : Routes sizes arrays layout tables)
    (holds : HoldsBatch sizes arrays layout tables pendCumLps pendNodeIndices stridePend states) :
    Fills layout.B strideNodes (fun b => (states b).rows.length)
      (hostAppended sizes arrays layout states)
      (bfsScatterKernelFlat sizes arrays pendCumLps pendNodeIndices tables strideNodes stridePend
        layout.programs) := by
  have real : bfsScatterKernelFlat sizes arrays pendCumLps pendNodeIndices tables strideNodes
      stridePend layout.programs = ((List.range layout.programs).filter tables.validLeaf).flatMap
        (fun pid => scatterLeaf sizes arrays pid (flatScalars sizes pendCumLps pendNodeIndices tables
          strideNodes stridePend pid)) := by
    rw [bfsScatterKernelFlat]
    refine (flatMap_filter_quiet _ _ _ (fun pid pad => ?_)).symm
    rw [scatterLeaf]
    exact if_neg (by simp [flatScalars, pad])
  rw [real]
  refine (routes.programs_perm.flatMap_right _).trans ?_
  rw [List.flatMap_assoc]
  refine List.Perm.flatMap_left _ (fun b member => ?_)
  rw [List.flatMap_map]
  exact request_perm strideNodes routes holds (List.mem_range.mp member)

end fill

end SpecBlock.Building.Sglang
