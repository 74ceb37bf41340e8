import SpecBlock.Building.FlatScatter
import SpecBlock.Building.PolicyAgreement

/-!
# The tree of a batch

The two callers of the flat launch prepare its tables in different ways. The one that packs the
leaves finds the request of each by its offset, and subtracts from a prefix sum over all leaves what
it was at the request's first one. The one with a bucket for each request divides the number of the
program, and sums up the alternatives request by request, with the rows behind the pending leaves
left out.

Either way the launches of a batch together leave in every row what the host builder makes of the
request, and store at nothing else.
-/

namespace SpecBlock.Building.Sglang
open Segments Stores FilledRows Triton

variable {S : Type}

section callers

variable (sizes : LaunchSizes) (arrays : BfsArrays S) (B : Nat) (leaves treeStart : Nat → Nat)

/-- `n_alt_per_leaf` of the callers. -/
def callerAlts (pid : Nat) : Nat := sum sizes.K (fun slot => slotTopks sizes arrays pid slot - 1)

/-- `torch.bucketize` over the offsets behind the requests, to the right. -/
def bucketize (pid : Nat) : Nat :=
  ((List.range B).find? (fun b => pid < before leaves (b + 1))).getD B

/-- The packed layout: the leaves of a request lie behind those of the earlier ones. -/
def flatLayout : Layout where
  B := B
  leaves := leaves
  programs := before leaves B
  pidOf := fun b leaf => before leaves b + leaf

/-- The tables of `triton_build_bfs_flat_batched`. -/
def flatBatchedTables : FlatTables where
  validLeaf := fun _ => true
  bidxPerLeaf := bucketize B leaves
  leafLocal := fun pid => pid - before leaves (bucketize B leaves pid)
  treeStartPerReq := treeStart
  altBasePerReq := fun b => treeStart b + leaves b * sizes.K
  cumAltExclPerLeaf := fun pid =>
    let csumExcl := fun pid => cumsum (callerAlts sizes arrays) pid - callerAlts sizes arrays pid
    csumExcl pid - csumExcl (before leaves (bucketize B leaves pid))

/-- `total_alts_per_req_b`. -/
def flatBatchedTotal (b : Nat) : Nat :=
  sum (before leaves B) (fun pid =>
    if bucketize B leaves pid = b then callerAlts sizes arrays pid else 0)

variable (bucket : Nat)

/-- The layout with a bucket for each request. -/
def fixedLayout : Layout where
  B := B
  leaves := leaves
  programs := B * bucket
  pidOf := fun b leaf => b * bucket + leaf

/-- `n_alt_per_leaf` of a request, with the rows behind its leaves left out. -/
def fixedAlts (b leaf : Nat) : Nat :=
  if leaf < leaves b then callerAlts sizes arrays (b * bucket + leaf) else 0

/-- The tables of `triton_build_bfs_fixed_batched`. -/
def fixedBatchedTables : FlatTables where
  validLeaf := fun pid => decide (pid % bucket < leaves (pid / bucket))
  bidxPerLeaf := fun pid => pid / bucket
  leafLocal := fun pid => pid % bucket
  treeStartPerReq := treeStart
  altBasePerReq := fun b => treeStart b + leaves b * sizes.K
  cumAltExclPerLeaf := fun pid =>
    cumsum (fixedAlts sizes arrays leaves bucket (pid / bucket)) (pid % bucket) -
      fixedAlts sizes arrays leaves bucket (pid / bucket) (pid % bucket)

/-- `total_alts` of a request: the last of its inclusive sums. -/
def fixedBatchedTotal (b : Nat) : Nat :=
  cumsum (fixedAlts sizes arrays leaves bucket b) (bucket - 1)

end callers

section routes

variable {sizes : LaunchSizes} {arrays : BfsArrays S} {B : Nat} {leaves treeStart : Nat → Nat}

/-- The callers count a leaf's alternatives as its program does. -/
theorem callerAlts_eq (pid : Nat) :
    callerAlts sizes arrays pid = before (nAltSlot sizes arrays pid) sizes.K := by
  rw [callerAlts, sum_eq_before]
  exact before_congr (fun slot _ => nAltSlot_eq.symm)

theorem bucketize_at {b leaf : Nat} (low : b < B) (inside : leaf < leaves b) :
    bucketize B leaves (before leaves b + leaf) = b := by
  have found : (List.range B).find? (fun b' => decide (before leaves b + leaf < before leaves (b' + 1))) =
      some b := by
    refine List.find?_eq_some_iff_getElem.mpr ⟨?_, b, by simpa using low, by simp, ?_⟩
    · rw [before_succ, decide_eq_true_iff]
      omega
    · intro earlier less
      have offsets : before leaves (earlier + 1) ≤ before leaves b := before_mono leaves less
      simp only [List.getElem_range, Bool.not_eq_true', decide_eq_false_iff_not]
      omega
  rw [bucketize, found, Option.getD_some]

theorem packed_place {pid : Nat} (inside : pid < before leaves B) :
    ∃ b < B, ∃ leaf < leaves b, before leaves b + leaf = pid := by
  induction B with
  | zero => exact absurd inside (Nat.not_lt_zero _)
  | succ B ih =>
    rw [before_succ] at inside
    rcases Nat.lt_or_ge pid (before leaves B) with earlier | last
    · obtain ⟨b, low, leaf, listed, here⟩ := ih earlier
      exact ⟨b, Nat.lt_succ_of_lt low, leaf, listed, here⟩
    · exact ⟨B, Nat.lt_succ_self B, pid - before leaves B, by omega, by omega⟩

theorem flatBatched_routes :
    Routes sizes arrays (flatLayout B leaves)
      (flatBatchedTables sizes arrays B leaves treeStart) := by
  constructor
  · intro b low leaf listed
    have offsets : before leaves (b + 1) ≤ before leaves B := before_mono leaves low
    have within : leaf < leaves b := listed
    rw [before_succ] at offsets
    show before leaves b + leaf < before leaves B
    omega
  · exact fun _ _ _ _ => rfl
  · exact fun b low leaf listed => bucketize_at low listed
  · intro b low leaf listed
    have request : bucketize B leaves (before leaves b + leaf) = b := bucketize_at low listed
    simp only [flatLayout, flatBatchedTables, request, Nat.add_sub_cancel_left]
  · intro b low leaf listed
    have request : bucketize B leaves (before leaves b + leaf) = b := bucketize_at low listed
    have split := before_add (callerAlts sizes arrays) (before leaves b) leaf
    simp only [flatLayout, flatBatchedTables, request, cumsum_sub, split, Nat.add_sub_cancel_left]
    exact before_congr (fun other _ => callerAlts_eq _)
  · exact fun _ _ => rfl
  · intro pid inside _
    exact packed_place inside

/-- The packing caller's total of a request is that of its leaves. -/
theorem flatBatchedTotal_eq {b : Nat} (low : b < B) :
    flatBatchedTotal sizes arrays B leaves b =
      before ((flatLayout B leaves).alts sizes arrays b) (leaves b) := by
  let counted := fun pid => if bucketize B leaves pid = b then callerAlts sizes arrays pid else 0
  have outside : ∀ b' < B, b' ≠ b → ∀ leaf < leaves b', counted (before leaves b' + leaf) = 0 := by
    intro b' low' other leaf listed
    have request : bucketize B leaves (before leaves b' + leaf) = b' := bucketize_at low' listed
    exact if_neg (by rw [request]; exact other)
  have earlier : before counted (before leaves b) = 0 := by
    refine ((before_eq_iff counted (Nat.zero_le _)).mpr (fun pid _ inside => ?_)).symm
    obtain ⟨b', less, leaf, listed, rfl⟩ := packed_place inside
    exact outside b' (by omega) (by omega) leaf listed
  have later : before counted (before leaves (b + 1)) = before counted (before leaves B) := by
    refine (before_eq_iff counted (before_mono leaves low)).mpr (fun pid behind inside => ?_)
    obtain ⟨b', low', leaf, listed, rfl⟩ := packed_place inside
    have other : b' ≠ b := by
      rintro rfl
      rw [before_succ] at behind
      omega
    exact outside b' low' other leaf listed
  have own : before (fun leaf => counted (before leaves b + leaf)) (leaves b) =
      before ((flatLayout B leaves).alts sizes arrays b) (leaves b) := by
    refine before_congr (fun leaf listed => ?_)
    have request : bucketize B leaves (before leaves b + leaf) = b := bucketize_at low listed
    exact (if_pos request).trans (callerAlts_eq _)
  rw [flatBatchedTotal, sum_eq_before, ← own]
  show before counted (before leaves B) = _
  rw [← later, before_succ, before_add, earlier, Nat.zero_add]

variable {bucket : Nat}

theorem fixedAlts_eq {b leaf : Nat} (listed : leaf < leaves b) :
    fixedAlts sizes arrays leaves bucket b leaf =
      (fixedLayout B leaves bucket).alts sizes arrays b leaf :=
  (if_pos listed).trans (callerAlts_eq _)

theorem fixedBatched_routes (fits : ∀ b < B, leaves b ≤ bucket) :
    Routes sizes arrays (fixedLayout B leaves bucket)
      (fixedBatchedTables sizes arrays leaves treeStart bucket) := by
  have row : ∀ b < B, ∀ leaf < leaves b, (b * bucket + leaf) / bucket = b :=
    fun b low leaf listed => address_div (Nat.lt_of_lt_of_le listed (fits b low))
  have column : ∀ b < B, ∀ leaf < leaves b, (b * bucket + leaf) % bucket = leaf :=
    fun b low leaf listed => address_mod (Nat.lt_of_lt_of_le listed (fits b low))
  constructor
  · exact fun b low leaf listed => address_lt low (Nat.lt_of_lt_of_le listed (fits b low))
  · intro b low leaf listed
    simp only [fixedLayout, fixedBatchedTables, row b low leaf listed, column b low leaf listed]
    exact decide_eq_true listed
  · exact fun b low leaf listed => row b low leaf listed
  · exact fun b low leaf listed => column b low leaf listed
  · intro b low leaf listed
    simp only [fixedLayout, fixedBatchedTables, row b low leaf listed, column b low leaf listed,
      cumsum_sub]
    have within : leaf < leaves b := listed
    exact before_congr (fun other less => fixedAlts_eq (B := B) (less.trans within))
  · exact fun _ _ => rfl
  · intro pid inside real
    have listed : pid % bucket < leaves (pid / bucket) := of_decide_eq_true real
    refine ⟨pid / bucket, Nat.div_lt_of_lt_mul (by rw [Nat.mul_comm]; exact inside),
      pid % bucket, listed, ?_⟩
    exact Nat.div_add_mod' pid bucket

/-- The total of a request in its bucket is that of its leaves. -/
theorem fixedBatchedTotal_eq {b : Nat} (room : 0 < bucket) (fits : leaves b ≤ bucket) :
    fixedBatchedTotal sizes arrays leaves bucket b =
      before ((fixedLayout B leaves bucket).alts sizes arrays b) (leaves b) := by
  have padded : before (fixedAlts sizes arrays leaves bucket b) (leaves b) =
      before (fixedAlts sizes arrays leaves bucket b) bucket :=
    (before_eq_iff _ fits).mpr (fun leaf pad _ => if_neg (Nat.not_lt.mpr pad))
  rw [fixedBatchedTotal, cumsum_eq_before, Nat.sub_add_cancel room, ← padded]
  exact before_congr (fun leaf listed => fixedAlts_eq listed)

end routes

section run

variable [AddCommGroup S] (settings : SlotSettings S) (K strideNodes stridePend B pendDepth : Nat)
  (arrays : Block1Arrays S) (next : BfsArrays S)

/-- The sizes of the first launch. -/
def firstSizes : Block1Sizes where
  K := K
  maxTopk := Policy.maxTopk settings
  giveUpClass := Policy.giveUpClass settings
  strideNodes := strideNodes
  stridePend := stridePend

/-- The sizes of the launch of the later block. -/
def laterSizes : LaunchSizes where
  K := K
  maxTopk := Policy.maxTopk settings
  pendDepth := pendDepth

/-- What the first launch stores. -/
def firstLaunch : BatchStores S :=
  block1MegaKernelBatched (firstSizes settings K strideNodes stridePend) arrays B

/-- What the host builder makes of a request's block 1. -/
def hostFirst (b : Nat) : BuildState S :=
  hostExpanded (firstSizes settings K strideNodes stridePend) arrays b

/-- What the host builder makes of a request's later block, in a layout of the leaves. -/
def hostLater (layout : Layout) (states : Nat → BuildState S) (b : Nat) : List (TreeRow S) :=
  Host.bfsExpand settings (hostNext (laterSizes settings K pendDepth) next layout b)
    (hostTopks (laterSizes settings K pendDepth) next layout b) K pendDepth (states b)

/-- The packed launch of the later block, over the pending rows and the sizes in memory. -/
def packedLaunch (pendMem : Nat → PendRow S) (sizesMem : Nat → Nat) : List (Nat × TreeRow S) :=
  let leaves := fun b => sizesMem (b * 4 + 3)
  bfsScatterKernelFlat (laterSizes settings K pendDepth) next (fun place => (pendMem place).cumLp)
    (fun place => (pendMem place).nodeIndex)
    (flatBatchedTables (laterSizes settings K pendDepth) next B leaves (fun b => sizesMem (b * 4)))
    strideNodes stridePend (before leaves B)

/-- The launch of the later block with a bucket for each request, over rows chosen from the pending
ones. -/
def bucketLaunch (bucket : Nat) (chosenMem : Nat → PendRow S) (leaves treeStart : Nat → Nat) :
    List (Nat × TreeRow S) :=
  bfsScatterKernelFlat (laterSizes settings K pendDepth) next (fun place => (chosenMem place).cumLp)
    (fun place => (chosenMem place).nodeIndex)
    (fixedBatchedTables (laterSizes settings K pendDepth) next leaves treeStart bucket)
    strideNodes bucket (B * bucket)

/-- `max_block1_nodes`. -/
def maxBlock1Nodes (settings : SlotSettings S) (K : Nat) : Nat :=
  K + K * (Policy.maxTopk settings - 1) + 1

/-- `max_nodes`. -/
def maxNodes (settings : SlotSettings S) (K totalTokens : Nat) : Nat :=
  max (totalTokens + 200)
    (maxBlock1Nodes settings K + maxBlock1Nodes settings K * K * Policy.maxTopk settings + 100)

end run

section bounds

variable [AddCommGroup S] {sizes : Block1Sizes} {arrays : Block1Arrays S} {bidx : Nat}

theorem hostExpanded_rows_length : (hostExpanded sizes arrays bidx).rows.length =
    sizes.K + before (Block1.nAlt sizes arrays bidx) sizes.K := by
  rw [hostExpanded, expandBlock1_rows, List.length_append, List.length_map, List.length_range,
    spread_length]
  rfl

theorem hostExpanded_rows_le (fits : CountsFit sizes arrays bidx) :
    (hostExpanded sizes arrays bidx).rows.length ≤ sizes.K + sizes.K * (sizes.maxTopk - 1) := by
  have few := before_le (Block1.nAlt sizes arrays bidx) (sizes.maxTopk - 1) sizes.K
    (fun k inside => Nat.sub_le_sub_right (fits.counts k inside) 1)
  rw [hostExpanded_rows_length]
  omega

theorem hostExpanded_pend_le (fits : CountsFit sizes arrays bidx) (slots : 0 < sizes.K) :
    (hostExpanded sizes arrays bidx).pend.length ≤ sizes.K + sizes.K * (sizes.maxTopk - 1) + 1 := by
  have active : (Host.activeSlots (Block1.topks sizes arrays bidx) sizes.K).length ≤ sizes.K := by
    have all := List.length_filter_le (fun k => decide (1 < Block1.topks sizes arrays bidx k))
      (List.range sizes.K)
    rwa [List.length_range] at all
  have few := before_le (Block1.nAlt sizes arrays bidx) (sizes.maxTopk - 1) sizes.K
    (fun k inside => Nat.sub_le_sub_right (fits.counts k inside) 1)
  have hitched : (pendHitch (hostBlock1 sizes arrays bidx) (Block1.topks sizes arrays bidx) sizes.K
      sizes.giveUpClass).length ≤ 1 := by
    rw [pendHitch]
    split
    · exact Nat.le_refl 1
    · exact Nat.zero_le 1
  rw [hostExpanded, expandBlock1_pend _ _ _ slots, List.length_append, List.length_append, pendActive,
    List.length_map, pendAlts, spread_length]
  have alternatives : before (fun k => Block1.topks sizes arrays bidx k - 1) sizes.K =
      before (Block1.nAlt sizes arrays bidx) sizes.K := rfl
  omega

end bounds

section agreement

variable [AddCommGroup S] {settings : SlotSettings S} {K strideNodes stridePend B pendDepth : Nat}
  {arrays : Block1Arrays S} {next : BfsArrays S}

/-- The three launches' lists of block 1 are those of the host. -/
theorem firstLaunch_fills (slots : 0 < K)
    (fits : ∀ b < B, CountsFit (firstSizes settings K strideNodes stridePend) arrays b) :
    Fills B strideNodes (fun _ => 0)
        (fun b => (hostFirst settings K strideNodes stridePend arrays b).rows)
        (firstLaunch settings K strideNodes stridePend B arrays).tree ∧
      Fills B stridePend (fun _ => 0)
        (fun b => (hostFirst settings K strideNodes stridePend arrays b).pend)
        (firstLaunch settings K strideNodes stridePend B arrays).pend ∧
      Fills B 4 (fun _ => 0) (fun b => [
          (hostFirst settings K strideNodes stridePend arrays b).rows.length,
          (Host.activeSlots (Block1.topks (firstSizes settings K strideNodes stridePend) arrays b)
            K).length,
          (Host.slotExpanded (Block1.topks (firstSizes settings K strideNodes stridePend) arrays b)
            K).length,
          (hostFirst settings K strideNodes stridePend arrays b).pend.length])
        (firstLaunch settings K strideNodes stridePend B arrays).sizes := by
  refine ⟨?_, ?_, ?_⟩
  · refine List.Perm.of_eq (List.flatMap_congr (fun b member => ?_))
    exact program_tree (fits b (List.mem_range.mp member))
  · refine List.Perm.flatMap_left _ (fun b member => ?_)
    exact program_pend (fits b (List.mem_range.mp member)) slots
  · refine List.Perm.of_eq (List.flatMap_congr (fun b _ => ?_))
    exact program_sizes slots

/-- The rows that a flat launch fills complete the host's tree. -/
theorem hostLater_eq (children : 0 < Policy.tableTopk settings (Policy.giveUpClass settings))
    (layout : Layout) (states : Nat → BuildState S) (b : Nat) :
    hostLater settings K pendDepth next layout states b = (states b).rows ++
      hostAppended (laterSizes settings K pendDepth) next layout states b :=
  bfsExpand_eq children

/-- The node count of the host's tree: block 1, a chain for each leaf, and the alternatives. -/
theorem hostLater_length (children : 0 < Policy.tableTopk settings (Policy.giveUpClass settings))
    (layout : Layout) (states : Nat → BuildState S) (b : Nat) :
    (hostLater settings K pendDepth next layout states b).length =
      (states b).rows.length + (states b).pend.length * K +
        before (layout.alts (laterSizes settings K pendDepth) next b) (states b).pend.length := by
  have alternatives : ∀ count, ((List.range count).flatMap (fun leaf => spread (fun slot =>
      hostTopks (laterSizes settings K pendDepth) next layout b leaf slot - 1) K (fun slot j =>
        Numpy.pairAltRow (hostNext (laterSizes settings K pendDepth) next layout b) K
          (states b).pend (states b).rows.length pendDepth ((states b).rows ++ hostChains
            (hostNext (laterSizes settings K pendDepth) next layout b) K pendDepth (states b))
          ((leaf, slot), j + 1)))).length =
      before (layout.alts (laterSizes settings K pendDepth) next b) count := by
    intro count
    induction count with
    | zero => rfl
    | succ count ih =>
      have last : before (fun slot =>
          hostTopks (laterSizes settings K pendDepth) next layout b count slot - 1) K =
          layout.alts (laterSizes settings K pendDepth) next b count :=
        before_congr (fun slot _ => nAltSlot_eq.symm)
      rw [List.range_succ, List.flatMap_append, List.length_append, ih,
        List.flatMap_singleton, spread_length, last, before_succ]
  rw [hostLater, bfsExpand_eq children, List.length_append, List.length_append, hostChains,
    List.length_map, List.length_range, hostAlts, alternatives, Nat.add_assoc]

omit [AddCommGroup S] in
/-- Counts of the later block that fit the tables bound the alternatives of the leaves. -/
theorem layout_alts_le (counts : ∀ index, next.slotTopksNK index ≤ Policy.maxTopk settings)
    (layout : Layout) (b count : Nat) :
    before (layout.alts (laterSizes settings K pendDepth) next b) count ≤
      count * (K * (Policy.maxTopk settings - 1)) := by
  refine before_le _ _ _ (fun leaf _ => before_le _ _ _ (fun slot _ => ?_))
  rw [nAltSlot_eq]
  exact Nat.sub_le_sub_right (counts _) 1

/-- The buffers that `build_tree_batched_gpu` allocates have room for the host's tree. -/
theorem allocated_room (slots : 0 < K)
    (children : 0 < Policy.tableTopk settings (Policy.giveUpClass settings))
    (fits : ∀ b < B, CountsFit (firstSizes settings K strideNodes stridePend) arrays b)
    (counts : ∀ index, next.slotTopksNK index ≤ Policy.maxTopk settings) {totalTokens : Nat}
    (nodes : maxNodes settings K totalTokens ≤ strideNodes)
    (pending : maxBlock1Nodes settings K ≤ stridePend) (layout : Layout) :
    FitsRows B stridePend (fun _ => 0)
        (fun b => (hostFirst settings K strideNodes stridePend arrays b).pend) ∧
      FitsRows B strideNodes (fun _ => 0) (hostLater settings K pendDepth next layout
        (hostFirst settings K strideNodes stridePend arrays)) := by
  have columns : 0 < Policy.maxTopk settings := Nat.lt_of_lt_of_le children (tableTopk_le _)
  have leaves : ∀ b < B, (hostFirst settings K strideNodes stridePend arrays b).pend.length ≤
      maxBlock1Nodes settings K := fun b low => hostExpanded_pend_le (fits b low) slots
  constructor
  · intro b low
    rw [Nat.zero_add]
    exact (leaves b low).trans pending
  · intro b low
    have rows : (hostFirst settings K strideNodes stridePend arrays b).rows.length ≤
        K + K * (Policy.maxTopk settings - 1) := hostExpanded_rows_le (fits b low)
    have alternatives : before (layout.alts (laterSizes settings K pendDepth) next b)
        (hostFirst settings K strideNodes stridePend arrays b).pend.length ≤ _ :=
      layout_alts_le counts layout b _
    have perLeaf : K + K * (Policy.maxTopk settings - 1) = K * Policy.maxTopk settings := by
      obtain ⟨others, same⟩ := Nat.exists_eq_succ_of_ne_zero columns.ne'
      rw [same, Nat.succ_sub_one, Nat.mul_succ, Nat.add_comm]
    have all := Nat.mul_le_mul_right (K * Policy.maxTopk settings) (leaves b low)
    rw [← perLeaf, Nat.mul_add] at all
    have total : maxBlock1Nodes settings K * K + maxBlock1Nodes settings K *
        (K * (Policy.maxTopk settings - 1)) =
          maxBlock1Nodes settings K * K * Policy.maxTopk settings := by
      rw [← Nat.mul_add, perLeaf, Nat.mul_assoc]
    have capacity : maxBlock1Nodes settings K +
        maxBlock1Nodes settings K * K * Policy.maxTopk settings + 100 ≤ strideNodes :=
      (Nat.le_max_right _ _).trans nodes
    have first : K + K * (Policy.maxTopk settings - 1) ≤ maxBlock1Nodes settings K :=
      Nat.le_succ _
    rw [Nat.mul_add] at all
    rw [Nat.zero_add, hostLater_length children]
    omega

/-- Both launches together fill a batch with the host's tree. -/
theorem batch_fills (children : 0 < Policy.tableTopk settings (Policy.giveUpClass settings))
    {layout : Layout} {tables : FlatTables} {states : Nat → BuildState S}
    {first : List (Nat × TreeRow S)} {pendCumLps : Nat → S} {pendNodeIndices : Nat → Nat}
    (routes : Routes (laterSizes settings K pendDepth) next layout tables)
    (holds : HoldsBatch (laterSizes settings K pendDepth) next layout tables pendCumLps
      pendNodeIndices stridePend states)
    (filled : Fills layout.B strideNodes (fun _ => 0) (fun b => (states b).rows) first) :
    Fills layout.B strideNodes (fun _ => 0) (hostLater settings K pendDepth next layout states)
      (first ++ bfsScatterKernelFlat (laterSizes settings K pendDepth) next pendCumLps
        pendNodeIndices tables strideNodes stridePend layout.programs) := by
  have appended := bfsScatterKernelFlat_fills strideNodes routes holds
  have starts : (fun b => (states b).rows.length) = fun b => 0 + (states b).rows.length :=
    funext (fun b => (Nat.zero_add _).symm)
  rw [starts] at appended
  have both := filled.append appended
  have rows : hostLater settings K pendDepth next layout states = fun b => (states b).rows ++
      hostAppended (laterSizes settings K pendDepth) next layout states b :=
    funext (hostLater_eq children layout states)
  rwa [rows]

/-- What the packed caller leaves: both launches together write each request's row of the host's
tree, once and nothing else, a run of one after the other leaves it there, and the caller's node
count is the length of it. -/
structure PackedRefines (settings : SlotSettings S) (K strideNodes stridePend B pendDepth : Nat)
    (arrays : Block1Arrays S) (next : BfsArrays S) (pendMem : Nat → PendRow S)
    (sizesMem : Nat → Nat) (layout : Layout) : Prop where
  written : FitsRows B strideNodes (fun _ => 0) (hostLater settings K pendDepth next layout
      (hostFirst settings K strideNodes stridePend arrays)) →
    WrittenRows B strideNodes (fun _ => 0) (hostLater settings K pendDepth next layout
        (hostFirst settings K strideNodes stridePend arrays))
      ((firstLaunch settings K strideNodes stridePend B arrays).tree ++
        packedLaunch settings K strideNodes stridePend B pendDepth next pendMem sizesMem)
  left : FitsRows B strideNodes (fun _ => 0) (hostLater settings K pendDepth next layout
      (hostFirst settings K strideNodes stridePend arrays)) →
    ∀ memory middle result : Nat → TreeRow S,
      Outcome memory (firstLaunch settings K strideNodes stridePend B arrays).tree middle →
      Outcome middle (packedLaunch settings K strideNodes stridePend B pendDepth next pendMem
        sizesMem) result →
      ∀ b < B, ∀ index row, (hostLater settings K pendDepth next layout
          (hostFirst settings K strideNodes stridePend arrays) b)[index]? = some row →
        result (b * strideNodes + index) = row
  count : ∀ b < B, sizesMem (b * 4) + sizesMem (b * 4 + 3) * K +
      flatBatchedTotal (laterSizes settings K pendDepth) next B (fun b => sizesMem (b * 4 + 3)) b =
    (hostLater settings K pendDepth next layout
      (hostFirst settings K strideNodes stridePend arrays) b).length

/-- What the caller with buckets leaves: the launch writes behind each request's rows what the host
appends, once and nothing else, and the caller's node count is the length of the host's tree. -/
structure BucketRefines (settings : SlotSettings S) (K strideNodes B pendDepth : Nat)
    (next : BfsArrays S) (bucket : Nat) (states : Nat → BuildState S)
    (chosenMem : Nat → PendRow S) (layout : Layout) : Prop where
  written : FitsRows B strideNodes (fun b => (states b).rows.length) (fun b =>
      (hostLater settings K pendDepth next layout states b).drop (states b).rows.length) →
    WrittenRows B strideNodes (fun b => (states b).rows.length)
      (fun b => (hostLater settings K pendDepth next layout states b).drop (states b).rows.length)
      (bucketLaunch settings K strideNodes B pendDepth next bucket chosenMem
        (fun b => (states b).pend.length) (fun b => (states b).rows.length))
  count : ∀ b < B, (states b).rows.length + (states b).pend.length * K +
      fixedBatchedTotal (laterSizes settings K pendDepth) next (fun b => (states b).pend.length)
        bucket b =
    (hostLater settings K pendDepth next layout states b).length

theorem packed_refines (slots : 0 < K)
    (children : 0 < Policy.tableTopk settings (Policy.giveUpClass settings))
    (tile : Policy.maxTopk settings ≤ 17)
    (fits : ∀ b < B, CountsFit (firstSizes settings K strideNodes stridePend) arrays b)
    (counts : ∀ index, next.slotTopksNK index ≤ Policy.maxTopk settings)
    (room : FitsRows B stridePend (fun _ => 0)
      (fun b => (hostFirst settings K strideNodes stridePend arrays b).pend))
    {pendBefore pendMem : Nat → PendRow S} {sizesBefore sizesMem : Nat → Nat}
    (pending : Outcome pendBefore (firstLaunch settings K strideNodes stridePend B arrays).pend
      pendMem)
    (sized : Outcome sizesBefore (firstLaunch settings K strideNodes stridePend B arrays).sizes
      sizesMem) :
    PackedRefines settings K strideNodes stridePend B pendDepth arrays next pendMem sizesMem
      (flatLayout B (fun b => sizesMem (b * 4 + 3))) := by
  obtain ⟨tree, pend, sizes⟩ := firstLaunch_fills slots fits
  have stored := (pend.written room).values pending
  have read := (sizes.written (fun _ _ => Nat.le_refl 4)).values sized
  have starts : ∀ b < B, sizesMem (b * 4) =
      (hostFirst settings K strideNodes stridePend arrays b).rows.length :=
    fun b low => @read b low 0 _ rfl
  have leaves : ∀ b < B, sizesMem (b * 4 + 3) =
      (hostFirst settings K strideNodes stridePend arrays b).pend.length :=
    fun b low => @read b low 3 _ rfl
  have holds : HoldsBatch (laterSizes settings K pendDepth) next
      (flatLayout B (fun b => sizesMem (b * 4 + 3)))
      (flatBatchedTables (laterSizes settings K pendDepth) next B (fun b => sizesMem (b * 4 + 3))
        (fun b => sizesMem (b * 4)))
      (fun place => (pendMem place).cumLp) (fun place => (pendMem place).nodeIndex) stridePend
      (hostFirst settings K strideNodes stridePend arrays) := {
    starts := starts
    leaves := leaves
    nodes := fun b low leaf row listed => congrArg PendRow.nodeIndex (stored b low listed)
    lps := fun b low leaf row listed => congrArg PendRow.cumLp (stored b low listed)
    counts := fun _ _ _ _ _ _ => counts _
    tile := tile }
  have filled := batch_fills children flatBatched_routes holds tree
  constructor
  · exact fun fitting => filled.written fitting
  · intro fitting memory middle result outcome further b low index row listed
    exact (filled.written fitting).values (outcome.append further) b low listed
  · intro b low
    rw [hostLater_length children, flatBatchedTotal_eq low, starts b low, leaves b low]

/-- The caller with buckets refines the host builder. -/
theorem bucket_refines (children : 0 < Policy.tableTopk settings (Policy.giveUpClass settings))
    (tile : Policy.maxTopk settings ≤ 17)
    (counts : ∀ index, next.slotTopksNK index ≤ Policy.maxTopk settings) {bucket : Nat}
    (bucketRoom : 0 < bucket) {states : Nat → BuildState S} {chosenMem : Nat → PendRow S}
    (few : ∀ b < B, (states b).pend.length ≤ bucket)
    (chosen : ∀ b < B, ∀ leaf row, (states b).pend[leaf]? = some row →
      chosenMem (b * bucket + leaf) = row) :
    BucketRefines settings K strideNodes B pendDepth next bucket states chosenMem
      (fixedLayout B (fun b => (states b).pend.length) bucket) := by
  have holds : HoldsBatch (laterSizes settings K pendDepth) next
      (fixedLayout B (fun b => (states b).pend.length) bucket)
      (fixedBatchedTables (laterSizes settings K pendDepth) next (fun b => (states b).pend.length)
        (fun b => (states b).rows.length) bucket)
      (fun place => (chosenMem place).cumLp) (fun place => (chosenMem place).nodeIndex) bucket
      states := {
    starts := fun _ _ => rfl
    leaves := fun _ _ => rfl
    nodes := fun b low leaf row listed => congrArg PendRow.nodeIndex (chosen b low leaf row listed)
    lps := fun b low leaf row listed => congrArg PendRow.cumLp (chosen b low leaf row listed)
    counts := fun _ _ _ _ _ _ => counts _
    tile := tile }
  have filled := bfsScatterKernelFlat_fills strideNodes (fixedBatched_routes few) holds
  have appended : ∀ b, (hostLater settings K pendDepth next
      (fixedLayout B (fun b => (states b).pend.length) bucket) states b).drop (states b).rows.length =
      hostAppended (laterSizes settings K pendDepth) next
        (fixedLayout B (fun b => (states b).pend.length) bucket) states b := by
    intro b
    rw [hostLater_eq children, List.drop_left]
  constructor
  · simp only [appended]
    exact fun fitting => filled.written fitting
  · intro b low
    rw [hostLater_length children, fixedBatchedTotal_eq (B := B) bucketRoom (few b low)]

/-- What it means for the batched kernels to refine the host builder: the first launch writes each
request's tree rows, pending rows and sizes, each place once and no other; both callers of the
launch of the later block complete the trees; and the buffers that the packed caller allocates have
room for all that. -/
structure BatchRefines (settings : SlotSettings S) (K strideNodes stridePend B pendDepth : Nat)
    (arrays : Block1Arrays S) (next : BfsArrays S) : Prop where
  tree : FitsRows B strideNodes (fun _ => 0)
      (fun b => (hostFirst settings K strideNodes stridePend arrays b).rows) →
    WrittenRows B strideNodes (fun _ => 0)
      (fun b => (hostFirst settings K strideNodes stridePend arrays b).rows)
      (firstLaunch settings K strideNodes stridePend B arrays).tree
  pend : FitsRows B stridePend (fun _ => 0)
      (fun b => (hostFirst settings K strideNodes stridePend arrays b).pend) →
    WrittenRows B stridePend (fun _ => 0)
      (fun b => (hostFirst settings K strideNodes stridePend arrays b).pend)
      (firstLaunch settings K strideNodes stridePend B arrays).pend
  sizes : WrittenRows B 4 (fun _ => 0) (fun b => [
      (hostFirst settings K strideNodes stridePend arrays b).rows.length,
      (Host.activeSlots (Block1.topks (firstSizes settings K strideNodes stridePend) arrays b)
        K).length,
      (Host.slotExpanded (Block1.topks (firstSizes settings K strideNodes stridePend) arrays b)
        K).length,
      (hostFirst settings K strideNodes stridePend arrays b).pend.length])
    (firstLaunch settings K strideNodes stridePend B arrays).sizes
  packed : FitsRows B stridePend (fun _ => 0)
      (fun b => (hostFirst settings K strideNodes stridePend arrays b).pend) →
    ∀ (pendBefore pendMem : Nat → PendRow S) (sizesBefore sizesMem : Nat → Nat),
      Outcome pendBefore (firstLaunch settings K strideNodes stridePend B arrays).pend pendMem →
      Outcome sizesBefore (firstLaunch settings K strideNodes stridePend B arrays).sizes sizesMem →
      PackedRefines settings K strideNodes stridePend B pendDepth arrays next pendMem sizesMem
        (flatLayout B (fun b => sizesMem (b * 4 + 3)))
  bucketed : ∀ (bucket : Nat) (states : Nat → BuildState S) (chosenMem : Nat → PendRow S),
    0 < bucket → (∀ b < B, (states b).pend.length ≤ bucket) →
    (∀ b < B, ∀ leaf row, (states b).pend[leaf]? = some row →
      chosenMem (b * bucket + leaf) = row) →
    BucketRefines settings K strideNodes B pendDepth next bucket states chosenMem
      (fixedLayout B (fun b => (states b).pend.length) bucket)
  allocated : ∀ totalTokens, maxNodes settings K totalTokens ≤ strideNodes →
    maxBlock1Nodes settings K ≤ stridePend →
    FitsRows B stridePend (fun _ => 0)
        (fun b => (hostFirst settings K strideNodes stridePend arrays b).pend) ∧
      ∀ layout, FitsRows B strideNodes (fun _ => 0) (hostLater settings K pendDepth next layout
        (hostFirst settings K strideNodes stridePend arrays))

/-- **The batched kernels refine the host builder**: for every batch, number of slots, table whose
last class has children and counts up to the width of the tables, which fit the tile. -/
theorem batched_kernels_refine (settings : SlotSettings S)
    (K strideNodes stridePend B pendDepth : Nat) (arrays : Block1Arrays S) (next : BfsArrays S)
    (slots : 0 < K) (children : 0 < Policy.tableTopk settings (Policy.giveUpClass settings))
    (tile : Policy.maxTopk settings ≤ 17)
    (counts : ∀ index, arrays.slotTopksK index ≤ Policy.maxTopk settings)
    (nextCounts : ∀ index, next.slotTopksNK index ≤ Policy.maxTopk settings) :
    BatchRefines settings K strideNodes stridePend B pendDepth arrays next := by
  have fits : ∀ b < B, CountsFit (firstSizes settings K strideNodes stridePend) arrays b :=
    fun b _ => ⟨fun k _ => counts _, tile⟩
  obtain ⟨tree, pend, sizes⟩ := firstLaunch_fills slots fits
  constructor
  · exact fun fitting => tree.written fitting
  · exact fun fitting => pend.written fitting
  · exact sizes.written (fun _ _ => Nat.le_refl 4)
  · intro room pendBefore pendMem sizesBefore sizesMem pending sized
    exact packed_refines slots children tile fits nextCounts room pending sized
  · intro bucket states chosenMem bucketRoom few chosen
    exact bucket_refines children tile nextCounts bucketRoom few chosen
  · intro totalTokens nodes pending
    have room : ∀ layout, _ ∧ FitsRows B strideNodes (fun _ => 0) (hostLater settings K pendDepth
        next layout (hostFirst settings K strideNodes stridePend arrays)) :=
      allocated_room slots children fits nextCounts nodes pending
    exact ⟨(room (flatLayout B (fun _ => 0))).1, fun layout => (room layout).2⟩

end agreement

/-- A table whose last class has children, without modes. -/
def branchingOn : SlotSettings Int where
  beamWidth := 10
  rankSlotTopk := [2, 4, 6, 4]
  rankClasses := 4
  adaptiveSlot0 := 0
  adaptiveAll := 0
  atLeast := fun _ _ => false
  falling := fun _ _ _ _ likely => likely

/-- Block 1 of requests whose slots have three children each. -/
def tripleBlock1 : Block1Arrays Int where
  rankPreds := fun _ => 1
  greedyTarget := fun index => index
  greedyLps := fun _ => -1
  allTopTarget := fun index => index
  allTopLps := fun _ => -2
  slotTopksK := fun _ => 3

/-- Leaves whose slots have three children each. -/
def tripleLeaves : BfsArrays Int where
  allRankPreds := fun _ => 1
  allGreedyTarget := fun index => index
  allGreedyLps := fun _ => -1
  topTargetAll := fun index => index
  topLpsAll := fun _ => -2
  slotTopksNK := fun _ => 3

/-- The kernels refine the host builder for two requests of two slots. -/
theorem batched_kernels_refine_two :
    BatchRefines branchingOn 2 5000 30 2 1 tripleBlock1 tripleLeaves :=
  batched_kernels_refine branchingOn 2 5000 30 2 1 tripleBlock1 tripleLeaves (by decide) (by decide)
    (by decide) (fun _ => show 3 ≤ Policy.maxTopk branchingOn by decide)
    (fun _ => show 3 ≤ Policy.maxTopk branchingOn by decide)

end SpecBlock.Building.Sglang
