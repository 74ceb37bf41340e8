import SpecBlock.Building.PolicyAgreement

/-!
# The padded build of a later block

A build that waits for the number of pending leaves launches the kernels of the later block with
exactly so many rows. A build without that wait launches them with as many rows as there can be
pending leaves. The rows behind the pending leaves hold whatever they held; their counts are
multiplied by zero, a mask keeps their programs from storing, and the alternatives begin at an
offset from device memory.

The program that sums up the counts has a tile of leaves. The build that launches its kernels
directly makes the tile large enough for all rows. The region captured in a graph takes the tile of
its scratch as it is: leaves that the tile does not have are neither counted nor given an offset.
-/

namespace SpecBlock.Building.Sglang
open Segments Stores

variable {S : Type}

section builds

variable (settings : SlotSettings S) (K : Nat) (draft : DraftNext S) (NPend : Nat)

/-- `pend_max`. -/
def pendMax : Nat := K + K * (Policy.maxTopk settings - 1) + 1

/-- `pend_valid_mask`. -/
def pendValidMask (leaf : Nat) : Bool := decide (leaf < NPend)

/-- The arrays of the padded launch: the counts of the rows behind the pending leaves are blanked. -/
def maskedArrays : BfsArrays S :=
  { flatArrays settings K draft with
    slotTopksNK := fun index => (flatArrays settings K draft).slotTopksNK index *
      (pendValidMask NPend (index / K)).toNat }

variable [AddCommGroup S] (pendDepth : Nat) (pendCumLps : Nat → S) (pendNodeIndices : Nat → Nat)
  (nNodesB1 : Nat)

/-- The later block of `build_tree_gpu` with a known number of pending leaves: the stores in the
tree and the node count. -/
def exactBuild (blockN : Nat) (cumAltBuf : Nat → Nat) : List (Nat × TreeRow S) × Nat :=
  if NPend = 0 then ([], nNodesB1)
  else
    let built := tritonBuildBfs ⟨K, Policy.maxTopk settings, pendDepth⟩
      (flatArrays settings K draft) pendCumLps pendNodeIndices NPend nNodesB1
      (Triton.bfsBlockN NPend blockN) cumAltBuf
    (built.1, nNodesB1 + NPend * K + built.2)

/-- The later block over padded rows, with a tile of so many leaves. -/
def paddedBuild (blockN : Nat) (cumAltBuf : Nat → Nat) : List (Nat × TreeRow S) × Nat :=
  let built := tritonBuildBfsV2 ⟨K, Policy.maxTopk settings, pendDepth⟩
    (maskedArrays settings K draft NPend) pendCumLps pendNodeIndices (pendValidMask NPend)
    (nNodesB1 + NPend * K) nNodesB1 (pendMax settings K) blockN cumAltBuf
  (built.1, nNodesB1 + NPend * K + built.2)

/-- The later block of `build_tree_gpu` without a wait: the tile grows to all rows. -/
def gpuOnlyBuild (blockN : Nat) (cumAltBuf : Nat → Nat) : List (Nat × TreeRow S) × Nat :=
  paddedBuild settings K draft NPend pendDepth pendCumLps pendNodeIndices nNodesB1
    (Triton.bfsBlockN (pendMax settings K) blockN) cumAltBuf

/-- The later block of `build_tree_gpu_capturable_region`: the tile of the scratch. -/
def capturableBuild (blockN : Nat) (cumAltBuf : Nat → Nat) : List (Nat × TreeRow S) × Nat :=
  paddedBuild settings K draft NPend pendDepth pendCumLps pendNodeIndices nNodesB1 blockN cumAltBuf

end builds

/-- Two builds leave the same node count and, whatever the tree held and in whichever order their
stores come, the same rows below it. -/
structure SameTree (first second : List (Nat × TreeRow S) × Nat) : Prop where
  count : first.2 = second.2
  rows : ∀ memory result result' : Nat → TreeRow S, Outcome memory first.1 result →
    Outcome memory second.1 result' → ∀ place < first.2, result place = result' place

section launch

variable {settings : SlotSettings S} {K NPend pendDepth : Nat} {draft : DraftNext S}

/-- The counts of a pending leaf are not blanked, and those of other rows are. -/
theorem masked_slotTopks (leaf : Nat) {slot : Nat} (inside : slot < K) :
    slotTopks ⟨K, Policy.maxTopk settings, pendDepth⟩ (maskedArrays settings K draft NPend) leaf slot =
      if leaf < NPend then
        slotTopks ⟨K, Policy.maxTopk settings, pendDepth⟩ (flatArrays settings K draft) leaf slot
      else 0 := by
  have row : (leaf * K + slot) / K = leaf := address_div inside
  simp only [slotTopks, maskedArrays, pendValidMask, row]
  by_cases real : leaf < NPend
  · simp [real]
  · simp [real]

theorem flat_slotTopks (leaf : Nat) {slot : Nat} (inside : slot < K) :
    slotTopks ⟨K, Policy.maxTopk settings, pendDepth⟩ (flatArrays settings K draft) leaf slot =
      Policy.computeSlotTopksBfsGpu settings draft.greedyLps draft.rankPreds leaf slot := by
  have row : (leaf * K + slot) / K = leaf := address_div inside
  have column : (leaf * K + slot) % K = slot := address_mod inside
  simp only [slotTopks, flatArrays, row, column]

/-- The alternatives of a leaf. -/
def leafAlts (sizes : LaunchSizes) (arrays : BfsArrays S) (leaf : Nat) : Nat :=
  before (nAltSlot sizes arrays leaf) sizes.K

/-- A padded launch counts the alternatives of the pending leaves. -/
theorem masked_nAltPerLeaf {rows : Nat} (room : NPend ≤ rows) (leaf : Nat) :
    nAltPerLeaf ⟨K, Policy.maxTopk settings, pendDepth⟩ (maskedArrays settings K draft NPend) rows leaf =
      if leaf < NPend then
        leafAlts ⟨K, Policy.maxTopk settings, pendDepth⟩ (flatArrays settings K draft) leaf
      else 0 := by
  by_cases real : leaf < NPend
  · rw [if_pos real, nAltPerLeaf_real (by omega), leafAlts]
    refine before_congr (fun slot inside => ?_)
    rw [nAltSlot_eq, nAltSlot_eq, masked_slotTopks leaf inside, if_pos real]
  · rw [if_neg real]
    rcases Nat.lt_or_ge leaf rows with listed | beyond
    · rw [nAltPerLeaf_real listed]
      have none : ∀ slot < K, nAltSlot ⟨K, Policy.maxTopk settings, pendDepth⟩
          (maskedArrays settings K draft NPend) leaf slot = 0 := by
        intro slot inside
        rw [nAltSlot_eq, masked_slotTopks leaf inside, if_neg real]
      rw [before_congr none, before_const, Nat.mul_zero]
    · exact nAltPerLeaf_pad beyond

theorem flat_nAltPerLeaf (leaf : Nat) :
    nAltPerLeaf ⟨K, Policy.maxTopk settings, pendDepth⟩ (flatArrays settings K draft) NPend leaf =
      if leaf < NPend then
        leafAlts ⟨K, Policy.maxTopk settings, pendDepth⟩ (flatArrays settings K draft) leaf
      else 0 := by
  by_cases real : leaf < NPend
  · rw [if_pos real, nAltPerLeaf_real real, leafAlts]
  · rw [if_neg real, nAltPerLeaf_pad (Nat.le_of_not_lt real)]

theorem leafAlts_eq_zero (leaf : Nat) :
    leafAlts ⟨K, Policy.maxTopk settings, pendDepth⟩ (flatArrays settings K draft) leaf = 0 ↔
      ∀ slot < K, ¬ Policy.Branches settings draft.greedyLps draft.rankPreds leaf slot := by
  rw [leafAlts, eq_comm, ← before_zero (nAltSlot _ _ leaf), before_eq_iff _ (Nat.zero_le K)]
  have slots : ∀ slot < K, (nAltSlot ⟨K, Policy.maxTopk settings, pendDepth⟩
      (flatArrays settings K draft) leaf slot = 0 ↔
        ¬ Policy.Branches settings draft.greedyLps draft.rankPreds leaf slot) := by
    intro slot inside
    rw [nAltSlot_eq, flat_slotTopks leaf inside, ← Policy.branches_iff]
    omega
  constructor
  · intro empty slot inside
    exact (slots slot inside).mp (empty slot (Nat.zero_le slot) inside)
  · intro quiet slot _ inside
    exact (slots slot inside).mpr (quiet slot inside)

/-- The alternatives of the pending leaves. -/
def realAlts (settings : SlotSettings S) (K NPend pendDepth : Nat) (draft : DraftNext S)
    (leaf : Nat) : Nat :=
  if leaf < NPend then
    leafAlts ⟨K, Policy.maxTopk settings, pendDepth⟩ (flatArrays settings K draft) leaf
  else 0

theorem realAlts_total {blockN : Nat} (covered : NPend ≤ blockN) :
    before (realAlts settings K NPend pendDepth draft) blockN =
      before (realAlts settings K NPend pendDepth draft) NPend := by
  refine ((before_eq_iff _ covered).mpr (fun leaf pad _ => ?_)).symm
  exact if_neg (Nat.not_lt.mpr pad)

/-- A tile counts all alternatives exactly when no pending leaf that it does not have branches. -/
theorem realAlts_total_iff (blockN : Nat) :
    before (realAlts settings K NPend pendDepth draft) blockN =
        before (realAlts settings K NPend pendDepth draft) NPend ↔
      ∀ leaf, blockN ≤ leaf → leaf < NPend → ∀ slot < K,
        ¬ Policy.Branches settings draft.greedyLps draft.rankPreds leaf slot := by
  rcases Nat.lt_or_ge blockN NPend with short | covered
  · rw [before_eq_iff _ short.le]
    constructor
    · intro empty leaf beyond real
      have none := empty leaf beyond real
      rw [realAlts, if_pos real] at none
      exact (leafAlts_eq_zero leaf).mp none
    · intro quiet leaf beyond real
      rw [realAlts, if_pos real]
      exact (leafAlts_eq_zero leaf).mpr (quiet leaf beyond real)
  · constructor
    · intro _ leaf beyond real
      omega
    · intro _
      exact realAlts_total covered

variable [AddCommGroup S] {scalars : LeafScalars S}

/-- A leaf's program does the same with blanked counts behind the pending leaves. -/
theorem masked_scatterLeaf {leaf : Nat} (real : leaf < NPend) :
    scatterLeaf ⟨K, Policy.maxTopk settings, pendDepth⟩ (maskedArrays settings K draft NPend) leaf
        scalars =
      scatterLeaf ⟨K, Policy.maxTopk settings, pendDepth⟩ (flatArrays settings K draft) leaf
        scalars := by
  have counts : ∀ slot < K, slotTopks ⟨K, Policy.maxTopk settings, pendDepth⟩
      (maskedArrays settings K draft NPend) leaf slot =
        slotTopks ⟨K, Policy.maxTopk settings, pendDepth⟩ (flatArrays settings K draft) leaf slot := by
    intro slot inside
    rw [masked_slotTopks leaf inside, if_pos real]
  rw [scatterLeaf, scatterLeaf]
  congr 2
  refine List.flatMap_congr (fun slot member => ?_)
  have inside := List.mem_range.mp member
  have columns : altColumns ⟨K, Policy.maxTopk settings, pendDepth⟩
      (maskedArrays settings K draft NPend) leaf slot =
        altColumns ⟨K, Policy.maxTopk settings, pendDepth⟩ (flatArrays settings K draft) leaf slot := by
    rw [altColumns_eq, altColumns_eq, nAltSlot_eq, nAltSlot_eq, counts slot inside]
  have offset : cumAltSlotExcl ⟨K, Policy.maxTopk settings, pendDepth⟩
      (maskedArrays settings K draft NPend) leaf slot =
        cumAltSlotExcl ⟨K, Policy.maxTopk settings, pendDepth⟩ (flatArrays settings K draft) leaf
          slot := by
    rw [cumAltSlotExcl_eq, cumAltSlotExcl_eq]
    refine before_congr (fun earlier low => ?_)
    rw [nAltSlot_eq, nAltSlot_eq, counts earlier (low.trans inside)]
  rw [columns]
  refine List.map_congr_left (fun column _ => ?_)
  rw [altLane, altLane, offset]
  rfl

/-- Where the alternatives begin does not matter to a leaf without any. -/
theorem scatterLeaf_quiet {sizes : LaunchSizes} {arrays : BfsArrays S} {leaf : Nat}
    (none : leafAlts sizes arrays leaf = 0) (altBase : Nat) :
    scatterLeaf sizes arrays leaf { scalars with altBase := altBase } =
      scatterLeaf sizes arrays leaf scalars := by
  have empty : ∀ slot < sizes.K, altColumns sizes arrays leaf slot = [] := by
    intro slot inside
    have zero := (before_eq_iff (nAltSlot sizes arrays leaf) (Nat.zero_le sizes.K)).mp none.symm slot
      (Nat.zero_le slot) inside
    rw [altColumns_eq, zero, Nat.zero_min, List.range_zero]
  have alternatives : ∀ scalars : LeafScalars S, (List.range sizes.K).flatMap (fun slot =>
      (altColumns sizes arrays leaf slot).map (altLane sizes arrays leaf scalars slot)) = [] := by
    intro scalars
    refine List.flatMap_eq_nil_iff.mpr (fun slot member => ?_)
    rw [empty slot (List.mem_range.mp member), List.map_nil]
  rw [scatterLeaf, scatterLeaf, alternatives, alternatives]
  rfl

variable {pendCumLps : Nat → S} {pendNodeIndices : Nat → Nat} {nNodesB1 : Nat}

/-- What an exact build loads for a leaf. -/
def exactScalars (settings : SlotSettings S) (K NPend pendDepth : Nat) (draft : DraftNext S)
    (pendCumLps : Nat → S) (pendNodeIndices : Nat → Nat) (nNodesB1 leaf : Nat) : LeafScalars S where
  valid := true
  rowStart := 0
  chainBase := nNodesB1 + leaf * K
  altBase := nNodesB1 + NPend * K + before (realAlts settings K NPend pendDepth draft) leaf
  pendNode := pendNodeIndices leaf
  pendCumLp := pendCumLps leaf

/-- The stores of an exact build. -/
def exactStores (settings : SlotSettings S) (K NPend pendDepth : Nat) (draft : DraftNext S)
    (pendCumLps : Nat → S) (pendNodeIndices : Nat → Nat) (nNodesB1 : Nat) :
    List (Nat × TreeRow S) :=
  (List.range NPend).flatMap (fun leaf =>
    scatterLeaf ⟨K, Policy.maxTopk settings, pendDepth⟩ (flatArrays settings K draft) leaf
      (exactScalars settings K NPend pendDepth draft pendCumLps pendNodeIndices nNodesB1 leaf))

theorem exactBuild_eq (blockN : Nat) (cumAltBuf : Nat → Nat) :
    exactBuild settings K draft NPend pendDepth pendCumLps pendNodeIndices nNodesB1 blockN
        cumAltBuf =
      (exactStores settings K NPend pendDepth draft pendCumLps pendNodeIndices nNodesB1,
        nNodesB1 + NPend * K + before (realAlts settings K NPend pendDepth draft) NPend) := by
  rw [exactBuild]
  by_cases empty : NPend = 0
  · subst empty
    simp [exactStores]
  · have covered := bfsBlockN_le NPend blockN
    have counted : nAltPerLeaf ⟨K, Policy.maxTopk settings, pendDepth⟩ (flatArrays settings K draft)
        NPend = realAlts settings K NPend pendDepth draft := funext flat_nAltPerLeaf
    rw [if_neg empty]
    simp only [tritonBuildBfs, bfsSizingKernel_total, counted, realAlts_total covered]
    congr 1
    refine List.flatMap_congr (fun leaf member => ?_)
    have real := List.mem_range.mp member
    rw [bfsScatterKernel, bfsSizingKernel_offset real (Nat.lt_of_lt_of_le real covered), counted]
    rfl

/-- A padded build stores the same when its tile has every pending leaf that branches. -/
theorem paddedBuild_eq (blockN : Nat) (cumAltBuf : Nat → Nat) (room : NPend ≤ pendMax settings K)
    (covered : ∀ leaf, blockN ≤ leaf → leaf < NPend → ∀ slot < K,
      ¬ Policy.Branches settings draft.greedyLps draft.rankPreds leaf slot) :
    (paddedBuild settings K draft NPend pendDepth pendCumLps pendNodeIndices nNodesB1 blockN
        cumAltBuf).1 =
      exactStores settings K NPend pendDepth draft pendCumLps pendNodeIndices nNodesB1 := by
  have counted : nAltPerLeaf ⟨K, Policy.maxTopk settings, pendDepth⟩
      (maskedArrays settings K draft NPend) (pendMax settings K) =
        realAlts settings K NPend pendDepth draft := funext (masked_nAltPerLeaf room)
  obtain ⟨pads, split⟩ := Nat.exists_eq_add_of_le room
  simp only [paddedBuild, tritonBuildBfsV2]
  rw [split, List.range_add, List.flatMap_append, ← split]
  have behind : ((List.range pads).map (fun pad => NPend + pad)).flatMap
      (bfsScatterKernelV2 ⟨K, Policy.maxTopk settings, pendDepth⟩
        (maskedArrays settings K draft NPend) pendCumLps pendNodeIndices (pendValidMask NPend)
        (nNodesB1 + NPend * K) nNodesB1 (store cumAltBuf (bfsSizingKernel
          ⟨K, Policy.maxTopk settings, pendDepth⟩ (maskedArrays settings K draft NPend)
          (pendMax settings K) blockN).1)) = [] := by
    refine List.flatMap_eq_nil_iff.mpr (fun leaf member => ?_)
    obtain ⟨pad, _, rfl⟩ := List.mem_map.mp member
    have masked : pendValidMask NPend (NPend + pad) = false := decide_eq_false (by omega)
    rw [bfsScatterKernelV2, masked, scatterLeaf]
    exact if_neg Bool.false_ne_true
  rw [behind, List.append_nil, exactStores]
  refine List.flatMap_congr (fun leaf member => ?_)
  have real := List.mem_range.mp member
  have valid : pendValidMask NPend leaf = true := decide_eq_true real
  rw [bfsScatterKernelV2, valid, masked_scatterLeaf real]
  rcases Nat.lt_or_ge leaf blockN with inTile | beyond
  · rw [bfsSizingKernel_offset (Nat.lt_of_lt_of_le real room) inTile, counted]
    rfl
  · have none : leafAlts ⟨K, Policy.maxTopk settings, pendDepth⟩ (flatArrays settings K draft) leaf =
        0 := (leafAlts_eq_zero leaf).mpr (covered leaf beyond real)
    exact (scatterLeaf_quiet none _).symm.trans rfl

/-- A store of an exact build is a lane of a chain or of the alternatives. -/
theorem mem_exactStores {entry : Nat × TreeRow S}
    (member : entry ∈ exactStores settings K NPend pendDepth draft pendCumLps pendNodeIndices
      nNodesB1) :
    ∃ leaf < NPend, ∃ slot < K,
      let sizes : LaunchSizes := ⟨K, Policy.maxTopk settings, pendDepth⟩
      let arrays := flatArrays settings K draft
      let scalars := exactScalars settings K NPend pendDepth draft pendCumLps pendNodeIndices
        nNodesB1 leaf
      entry = chainLane sizes arrays leaf scalars slot ∨
        ∃ j < nAltSlot sizes arrays leaf slot, entry = altLane sizes arrays leaf scalars slot j := by
  obtain ⟨leaf, listed, stored⟩ := List.mem_flatMap.mp member
  refine ⟨leaf, List.mem_range.mp listed, ?_⟩
  rw [scatterLeaf, exactScalars, if_pos rfl] at stored
  rcases List.mem_append.mp stored with chained | alternative
  · obtain ⟨slot, inside, rfl⟩ := List.mem_map.mp chained
    exact ⟨slot, List.mem_range.mp inside, Or.inl rfl⟩
  · obtain ⟨slot, inside, lane⟩ := List.mem_flatMap.mp alternative
    obtain ⟨j, column, rfl⟩ := List.mem_map.mp lane
    rw [altColumns_eq, List.mem_range] at column
    exact ⟨slot, List.mem_range.mp inside, Or.inr ⟨j, by omega, rfl⟩⟩

omit [AddCommGroup S] in
theorem within_leafAlts {sizes : LaunchSizes} {arrays : BfsArrays S} {leaf slot j : Nat}
    (inside : slot < sizes.K) (column : j < nAltSlot sizes arrays leaf slot) :
    before (nAltSlot sizes arrays leaf) slot + j < leafAlts sizes arrays leaf := by
  have slots := before_mono (nAltSlot sizes arrays leaf) (Nat.succ_le_of_lt inside)
  rw [before_succ] at slots
  rw [leafAlts]
  omega

/-- Two stores of an exact build at one place are the same store. -/
theorem exactStores_alike {entry other : Nat × TreeRow S}
    (member : entry ∈ exactStores settings K NPend pendDepth draft pendCumLps pendNodeIndices
      nNodesB1)
    (member' : other ∈ exactStores settings K NPend pendDepth draft pendCumLps pendNodeIndices
      nNodesB1) (here : other.1 = entry.1) : other.2 = entry.2 := by
  obtain ⟨leaf, listed, slot, inside, lane⟩ := mem_exactStores member
  obtain ⟨leaf', listed', slot', inside', lane'⟩ := mem_exactStores member'
  have chains : leaf * K + slot < NPend * K := address_lt listed inside
  have chains' : leaf' * K + slot' < NPend * K := address_lt listed' inside'
  rcases lane with rfl | ⟨j, column, rfl⟩
  · rcases lane' with rfl | ⟨j', column', rfl⟩
    · have places : leaf' * K + slot' = leaf * K + slot := by
        simp only [chainLane, exactScalars] at here
        omega
      obtain ⟨rfl, rfl⟩ := address_inj inside' inside places
      rfl
    · simp only [chainLane, altLane, exactScalars] at here
      omega
  · rcases lane' with rfl | ⟨j', column', rfl⟩
    · simp only [chainLane, altLane, exactScalars] at here
      omega
    · have within := within_leafAlts inside column
      have within' := within_leafAlts inside' column'
      have counted : realAlts settings K NPend pendDepth draft leaf = leafAlts
          ⟨K, Policy.maxTopk settings, pendDepth⟩ (flatArrays settings K draft) leaf := if_pos listed
      have counted' : realAlts settings K NPend pendDepth draft leaf' = leafAlts
          ⟨K, Policy.maxTopk settings, pendDepth⟩ (flatArrays settings K draft) leaf' :=
        if_pos listed'
      rw [← counted] at within
      rw [← counted'] at within'
      simp only [altLane, exactScalars, cumAltSlotExcl_eq] at here
      obtain ⟨rfl, offsets⟩ := before_inj within' within (by omega)
      obtain ⟨rfl, rfl⟩ := before_inj column' column offsets
      rfl

/-- A padded build leaves the tree of an exact one exactly when its tile has every pending leaf
that branches. -/
theorem paddedBuild_iff (blockN exactBlockN : Nat) (cumAltBuf exactBuf : Nat → Nat)
    (room : NPend ≤ pendMax settings K) :
    SameTree
        (paddedBuild settings K draft NPend pendDepth pendCumLps pendNodeIndices nNodesB1 blockN
          cumAltBuf)
        (exactBuild settings K draft NPend pendDepth pendCumLps pendNodeIndices nNodesB1 exactBlockN
          exactBuf) ↔
      ∀ leaf, blockN ≤ leaf → leaf < NPend → ∀ slot < K,
        ¬ Policy.Branches settings draft.greedyLps draft.rankPreds leaf slot := by
  have counted : nAltPerLeaf ⟨K, Policy.maxTopk settings, pendDepth⟩
      (maskedArrays settings K draft NPend) (pendMax settings K) =
        realAlts settings K NPend pendDepth draft := funext (masked_nAltPerLeaf room)
  have total : (paddedBuild settings K draft NPend pendDepth pendCumLps pendNodeIndices nNodesB1
      blockN cumAltBuf).2 =
        nNodesB1 + NPend * K + before (realAlts settings K NPend pendDepth draft) blockN := by
    simp only [paddedBuild, tritonBuildBfsV2, bfsSizingKernel_total, counted]
  constructor
  · rintro ⟨count, _⟩
    rw [total, exactBuild_eq] at count
    exact (realAlts_total_iff blockN).mp (Nat.add_left_cancel count)
  · intro covered
    have level : before (realAlts settings K NPend pendDepth draft) blockN = _ :=
      (realAlts_total_iff blockN).mpr covered
    constructor
    · rw [total, level, exactBuild_eq]
    · intro memory result result' outcome outcome' place _
      rw [paddedBuild_eq blockN cumAltBuf room covered] at outcome
      rw [exactBuild_eq] at outcome'
      exact congrFun (outcome.unique (fun entry member other member' here =>
        exactStores_alike member member' here) outcome') place

end launch

section agreement

variable [AddCommGroup S]

/-- What it means for the padded builds to leave the tree of an exact one: the build that launches
its kernels directly, and the region captured in a graph with the tile its scratch has. -/
structure PaddedAgrees (settings : SlotSettings S) (K : Nat) (draft : DraftNext S)
    (NPend pendDepth : Nat) (pendCumLps : Nat → S) (pendNodeIndices : Nat → Nat)
    (nNodesB1 blockN tileN : Nat) (scratch : Nat → Nat) : Prop where
  gpuOnly : SameTree
    (gpuOnlyBuild settings K draft NPend pendDepth pendCumLps pendNodeIndices nNodesB1 blockN scratch)
    (exactBuild settings K draft NPend pendDepth pendCumLps pendNodeIndices nNodesB1 blockN scratch)
  capturable : SameTree
    (capturableBuild settings K draft NPend pendDepth pendCumLps pendNodeIndices nNodesB1 tileN
      scratch)
    (exactBuild settings K draft NPend pendDepth pendCumLps pendNodeIndices nNodesB1 blockN scratch)

theorem gpuOnlyBuild_same {settings : SlotSettings S} {K NPend pendDepth nNodesB1 : Nat}
    {draft : DraftNext S} {pendCumLps : Nat → S} {pendNodeIndices : Nat → Nat} (blockN : Nat)
    (scratch : Nat → Nat) (room : NPend ≤ pendMax settings K) :
    SameTree
      (gpuOnlyBuild settings K draft NPend pendDepth pendCumLps pendNodeIndices nNodesB1 blockN
        scratch)
      (exactBuild settings K draft NPend pendDepth pendCumLps pendNodeIndices nNodesB1 blockN
        scratch) := by
  refine (paddedBuild_iff _ blockN scratch scratch room).mpr (fun leaf beyond real => ?_)
  have covered := bfsBlockN_le (pendMax settings K) blockN
  omega

/-- **The padded builds leave the tree of an exact one** exactly when no pending leaf that the
captured region's tile does not have branches: for all numbers of slots and pending leaves, tables,
beam widths, modes, inputs and contents of the rows behind the pending leaves. -/
theorem padded_build_iff (settings : SlotSettings S) (K : Nat) (draft : DraftNext S)
    (NPend pendDepth : Nat) (pendCumLps : Nat → S) (pendNodeIndices : Nat → Nat)
    (nNodesB1 blockN tileN : Nat) (scratch : Nat → Nat) (room : NPend ≤ pendMax settings K) :
    PaddedAgrees settings K draft NPend pendDepth pendCumLps pendNodeIndices nNodesB1 blockN tileN
        scratch ↔
      ∀ leaf, tileN ≤ leaf → leaf < NPend → ∀ slot < K,
        ¬ Policy.Branches settings draft.greedyLps draft.rankPreds leaf slot := by
  constructor
  · rintro ⟨_, capturable⟩
    exact (paddedBuild_iff tileN blockN scratch scratch room).mp capturable
  · intro covered
    exact ⟨gpuOnlyBuild_same blockN scratch room,
      (paddedBuild_iff tileN blockN scratch scratch room).mpr covered⟩

end agreement

/-- Leaves whose slots all have ten children. -/
def wideLeaves : DraftNext Int where
  rankPreds := fun _ _ => 2
  greedyTarget := fun _ _ => 0
  greedyLps := fun _ _ => 0
  topTarget := fun _ _ _ => 0
  topLps := fun _ _ _ => 0

/-- The condition at four slots and forty pending leaves. -/
theorem padded_build_four :
    PaddedAgrees (givingUp 0) 4 wideLeaves 40 1 (fun _ => 0) (fun _ => 0) 40 32 64 (fun _ => 0) ↔
      ∀ leaf, 64 ≤ leaf → leaf < 40 → ∀ slot < 4,
        ¬ Policy.Branches (givingUp 0) wideLeaves.greedyLps wideLeaves.rankPreds leaf slot :=
  padded_build_iff (givingUp 0) 4 wideLeaves 40 1 (fun _ => 0) (fun _ => 0) 40 32 64 (fun _ => 0)
    (by decide)

/-- With eight slots and eighty pending leaves, the captured region leaves out what the leaves from
the sixty-fifth on branch into. -/
theorem padded_build_short :
    ¬ PaddedAgrees (givingUp 0) 8 wideLeaves 80 1 (fun _ => 0) (fun _ => 0) 80 32 64
      (fun _ => 0) := by
  intro agrees
  have covered := (paddedBuild_iff 64 32 (fun _ => 0) (fun _ => 0) (by decide)).mp agrees.capturable
  exact covered 64 (Nat.le_refl 64) (by decide) 0 (by decide) ⟨by decide, by decide⟩

end SpecBlock.Building.Sglang
