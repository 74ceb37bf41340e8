import SpecBlock.Building.CudaTriton
import SpecBlock.Building.SlotPolicy

/-!
# The kernels of a later block

A later block takes two launches: one program counts the alternatives of every leaf and stores the
offset of each, then one program a leaf scatters its chain and its alternatives. The number of
children of every leaf and slot is an input. There are three scatter kernels, and a leaf's program
does the same in all of them. They differ in what it loads: whether its leaf is real, the row it
writes to, where its chain and its alternatives begin, and the node it hangs below.

A program stores its chain, slot by slot, and then the lanes of a tile of sixteen columns a slot
that a mask selects.
-/

namespace SpecBlock.Building.Sglang
open Segments Stores Triton

variable {S : Type}

/-- What the launches of a later block read, as it lies in memory: a row of slots for each leaf,
and in the tables of the best tokens a row of `maxTopk` columns for each slot. -/
structure BfsArrays (S : Type) where
  allRankPreds : Nat → Nat
  allGreedyTarget : Nat → Nat
  allGreedyLps : Nat → S
  topTargetAll : Nat → Nat
  topLpsAll : Nat → S
  slotTopksNK : Nat → Nat

/-- The sizes that a launch is compiled for. -/
structure LaunchSizes where
  K : Nat
  maxTopk : Nat
  pendDepth : Nat

/-- What a scatter program loads for its leaf. Places count from the start of its row. -/
structure LeafScalars (S : Type) where
  valid : Bool
  rowStart : Nat
  chainBase : Nat
  altBase : Nat
  pendNode : Nat
  pendCumLp : S

section program

variable (sizes : LaunchSizes) (arrays : BfsArrays S) (pid : Nat)

/-- `slot_topks`. -/
def slotTopks (slot : Nat) : Nat := arrays.slotTopksNK (pid * sizes.K + slot)

/-- `n_alt_slot`. -/
def nAltSlot (slot : Nat) : Nat :=
  if 1 < slotTopks sizes arrays pid slot then slotTopks sizes arrays pid slot - 1 else 0

/-- `cum_alt_slot_excl`. -/
def cumAltSlotExcl (slot : Nat) : Nat :=
  cumsum (nAltSlot sizes arrays pid) slot - nAltSlot sizes arrays pid slot

variable [AddCommGroup S]

/-- `cum_greedy_lps`. -/
def cumGreedyLps (slot : Nat) : S :=
  cumsum (fun slot => arrays.allGreedyLps (pid * sizes.K + slot)) slot

/-- `cum_greedy_lps_excl`. -/
def cumGreedyLpsExcl (slot : Nat) : S :=
  cumGreedyLps sizes arrays pid slot - arrays.allGreedyLps (pid * sizes.K + slot)

variable (scalars : LeafScalars S)

/-- A lane of the chain. -/
def chainLane (slot : Nat) : Nat × TreeRow S :=
  (scalars.rowStart + (scalars.chainBase + slot), {
    token := arrays.allGreedyTarget (pid * sizes.K + slot)
    parent := if slot = 0 then (scalars.pendNode : Int)
      else ((scalars.chainBase + slot : Nat) : Int) - 1
    lp := scalars.pendCumLp + cumGreedyLps sizes arrays pid slot
    rank := arrays.allRankPreds (pid * sizes.K + slot)
    block := sizes.pendDepth
    slot := slot })

/-- A lane of the alternatives. -/
def altLane (slot j : Nat) : Nat × TreeRow S :=
  let ttOff := pid * sizes.K * sizes.maxTopk + slot * sizes.maxTopk + (j + 1)
  (scalars.rowStart + (scalars.altBase + (cumAltSlotExcl sizes arrays pid slot + j)), {
    token := arrays.topTargetAll ttOff
    parent := if slot = 0 then (scalars.pendNode : Int) else (scalars.chainBase : Int) + slot - 1
    lp := scalars.pendCumLp + cumGreedyLpsExcl sizes arrays pid slot + arrays.topLpsAll ttOff
    rank := arrays.allRankPreds (pid * sizes.K + slot)
    block := sizes.pendDepth
    slot := slot })

omit [AddCommGroup S] in
/-- `valid_2d`, without the mask of the leaf. -/
def altValid (slot j : Nat) : Bool :=
  decide (1 < slotTopks sizes arrays pid slot ∧ j < sizes.maxTopk - 1 ∧
    j + 1 < slotTopks sizes arrays pid slot)

/-- The columns of a slot that are not masked. -/
def altColumns (slot : Nat) : List Nat :=
  (List.range jPad).filter (altValid sizes arrays pid slot)

/-- What a scatter program stores. -/
def scatterLeaf : List (Nat × TreeRow S) :=
  if scalars.valid then
    (List.range sizes.K).map (chainLane sizes arrays pid scalars) ++
    (List.range sizes.K).flatMap (fun slot =>
      (altColumns sizes arrays pid slot).map (altLane sizes arrays pid scalars slot))
  else []

end program

section sizing

variable (sizes : LaunchSizes) (arrays : BfsArrays S) (N blockN : Nat)

/-- `n_alt_per_leaf`; the lanes behind the last leaf are masked. -/
def nAltPerLeaf (leaf : Nat) : Nat :=
  sum sizes.K (fun slot =>
    let baseTopk := if leaf < N then slotTopks sizes arrays leaf slot else 0
    if 1 < baseTopk ∧ leaf < N then baseTopk - 1 else 0)

/-- `_bfs_sizing_kernel`: the stores of the offsets, and the total. -/
def bfsSizingKernel : List (Nat × Nat) × Nat :=
  (((List.range blockN).filter (fun leaf => leaf < N)).map (fun leaf =>
    (leaf, cumsum (nAltPerLeaf sizes arrays N) leaf - nAltPerLeaf sizes arrays N leaf)),
    sum blockN (nAltPerLeaf sizes arrays N))

end sizing

section single

variable [AddCommGroup S] (sizes : LaunchSizes) (arrays : BfsArrays S)
  (pendCumLps : Nat → S) (pendNodeIndices : Nat → Nat)

/-- A program of `_bfs_scatter_kernel`. -/
def bfsScatterKernel (N treeStart : Nat) (cumAltExclPerLeaf : Nat → Nat) (leaf : Nat) :
    List (Nat × TreeRow S) :=
  scatterLeaf sizes arrays leaf {
    valid := true
    rowStart := 0
    chainBase := treeStart + leaf * sizes.K
    altBase := treeStart + N * sizes.K + cumAltExclPerLeaf leaf
    pendNode := pendNodeIndices leaf
    pendCumLp := pendCumLps leaf }

/-- A program of `_bfs_scatter_kernel_v2`: the mask and the two starts come from memory. -/
def bfsScatterKernelV2 (validMask : Nat → Bool) (altOffset treeStart : Nat)
    (cumAltExclPerLeaf : Nat → Nat) (leaf : Nat) : List (Nat × TreeRow S) :=
  scatterLeaf sizes arrays leaf {
    valid := validMask leaf
    rowStart := 0
    chainBase := treeStart + leaf * sizes.K
    altBase := altOffset + cumAltExclPerLeaf leaf
    pendNode := pendNodeIndices leaf
    pendCumLp := pendCumLps leaf }

/-- `triton_build_bfs`: the stores of both launches in the tree, and the total. The offsets go
through a scratch buffer. -/
def tritonBuildBfs (N treeStart blockN : Nat) (cumAltBuf : Nat → Nat) :
    List (Nat × TreeRow S) × Nat :=
  let sizing := bfsSizingKernel sizes arrays N blockN
  ((List.range N).flatMap (bfsScatterKernel sizes arrays pendCumLps pendNodeIndices N treeStart
    (store cumAltBuf sizing.1)), sizing.2)

/-- `triton_build_bfs_v2`: the sizing launch, then one scatter program for each leaf, which reads
the offset that the first launch has stored for it. -/
def tritonBuildBfsV2 (validMask : Nat → Bool) (altOffset treeStart N blockN : Nat)
    (cumAltBuf : Nat → Nat) : List (Nat × TreeRow S) × Nat :=
  let sizing := bfsSizingKernel sizes arrays N blockN
  ((List.range N).flatMap (bfsScatterKernelV2 sizes arrays pendCumLps pendNodeIndices validMask
    altOffset treeStart (store cumAltBuf sizing.1)), sizing.2)

end single

section facts

variable {sizes : LaunchSizes} {arrays : BfsArrays S} {pid slot : Nat}

theorem nAltSlot_eq : nAltSlot sizes arrays pid slot = slotTopks sizes arrays pid slot - 1 := by
  rw [nAltSlot]
  split <;> omega

theorem cumAltSlotExcl_eq :
    cumAltSlotExcl sizes arrays pid slot = before (nAltSlot sizes arrays pid) slot := by
  rw [cumAltSlotExcl, cumsum_sub]

/-- The columns of a slot are those of its alternatives that the tile and the tables have. -/
theorem altColumns_eq : altColumns sizes arrays pid slot =
    List.range (min (nAltSlot sizes arrays pid slot) (min (sizes.maxTopk - 1) jPad)) := by
  have narrow : min (nAltSlot sizes arrays pid slot) (min (sizes.maxTopk - 1) jPad) ≤ jPad := by
    omega
  rw [altColumns, ← filter_row narrow]
  refine List.filter_congr (fun column member => decide_eq_decide.mpr ?_)
  have inside := List.mem_range.mp member
  rw [nAltSlot_eq]
  constructor
  · intro valid
    omega
  · intro valid
    omega

/-- The columns of a slot whose alternatives the tile and the tables have. -/
theorem altColumns_fit (fits : slotTopks sizes arrays pid slot ≤ sizes.maxTopk)
    (tile : sizes.maxTopk ≤ 17) :
    altColumns sizes arrays pid slot = List.range (nAltSlot sizes arrays pid slot) := by
  have all : min (nAltSlot sizes arrays pid slot) (min (sizes.maxTopk - 1) jPad) =
      nAltSlot sizes arrays pid slot := by
    rw [nAltSlot_eq, jPad]
    omega
  rw [altColumns_eq, all]

variable {N blockN leaf : Nat}

theorem nAltPerLeaf_real (real : leaf < N) :
    nAltPerLeaf sizes arrays N leaf = before (nAltSlot sizes arrays leaf) sizes.K := by
  have slots : ∀ slot < sizes.K,
      (if 1 < (if leaf < N then slotTopks sizes arrays leaf slot else 0) ∧ leaf < N then
        (if leaf < N then slotTopks sizes arrays leaf slot else 0) - 1 else 0) =
      nAltSlot sizes arrays leaf slot := by
    intro slot _
    simp only [real, if_true, and_true]
    rfl
  rw [nAltPerLeaf, sum_eq_before]
  exact before_congr slots

theorem nAltPerLeaf_pad (pad : N ≤ leaf) : nAltPerLeaf sizes arrays N leaf = 0 := by
  have none : ∀ slot < sizes.K,
      (if 1 < (if leaf < N then slotTopks sizes arrays leaf slot else 0) ∧ leaf < N then
        (if leaf < N then slotTopks sizes arrays leaf slot else 0) - 1 else 0) = 0 := by
    intro slot _
    have masked : ¬ leaf < N := by omega
    simp [masked]
  rw [nAltPerLeaf, sum_eq_before, before_congr none, before_const, Nat.mul_zero]

theorem bfsSizingKernel_total :
    (bfsSizingKernel sizes arrays N blockN).2 = before (nAltPerLeaf sizes arrays N) blockN :=
  sum_eq_before _ _

theorem bfsSizingKernel_offset (listed : leaf < N) (covered : leaf < blockN)
    (scratch : Nat → Nat) :
    store scratch (bfsSizingKernel sizes arrays N blockN).1 leaf =
      before (nAltPerLeaf sizes arrays N) leaf := by
  refine store_value _ _ _ _ ?_ ?_
  · refine List.mem_map.mpr ⟨leaf, ?_, by rw [cumsum_sub]⟩
    exact List.mem_filter.mpr ⟨List.mem_range.mpr covered, decide_eq_true listed⟩
  · intro entry member here
    obtain ⟨other, _, rfl⟩ := List.mem_map.mp member
    obtain rfl : other = leaf := here
    exact cumsum_sub _ _

end facts

end SpecBlock.Building.Sglang
