import Mathlib.Data.Int.Order.Basic
import Mathlib.Data.List.Lex
import SpecBlock.Foundation.Stores
import SpecBlock.Batch.Trees

/-!
# Tree buffers from parent links

A draft tree grows as rows of tokens and parent indices, with `-1` for a child of the root.
The finalisers turn it into the tensors that verification reads. Both shift the indices by
one, so that the root is node zero and its own parent, and launch the same two kernels: one
program a node walks to the root, counting the links and marking the nodes it meets, and one
program a leaf walks the same way and writes the nodes it meets from right to left.

`build_tree_buffers_triton` reads the largest depth back and makes the rows of
`retrieve_indices` just wide enough; `finalize_tree_gpu` makes them as wide as the walk is
long. The programs of a launch run in any order.
-/

namespace SpecBlock.Building
open Stores

/-- `MAX_TREE_DEPTH`. -/
def maxTreeDepth : Nat := 20

/-- `parent_t`: the root is its own parent, and the nodes are shifted by one. -/
def parentTensor (tnParents : List Int) : List Nat :=
  0 :: tnParents.map (fun parent => if 0 ≤ parent then (parent + 1).toNat else 0)

/-- The registers of a program of `_tree_depth_mask_kernel`, and what it stored in the mask. -/
structure DepthWalk where
  cur : Nat
  depth : Nat
  marked : List (Nat × Nat)

/-- One turn of the loop of `_tree_depth_mask_kernel`. -/
def DepthWalk.turn (parents : List Nat) (np1 pid : Nat) (walk : DepthWalk) : DepthWalk where
  cur := if walk.cur = 0 then 0 else parents.getD walk.cur 0
  depth := walk.depth + if walk.cur = 0 then 0 else 1
  marked := walk.marked ++ [(pid * np1 + walk.cur, 1)]

/-- `_tree_depth_mask_kernel`: the program of one node. -/
def treeDepthMaskKernel (parents : List Nat) (np1 maxDepth pid : Nat) : DepthWalk :=
  (List.range (maxDepth + 1)).foldl (fun walk _ => walk.turn parents np1 pid) ⟨pid, 0, []⟩

/-- The registers of a program of `_tree_retrieve_kernel`, and what it stored in its row. -/
structure RetrieveWalk where
  cur : Nat
  written : List (Nat × Int)

/-- One turn of the loop of `_tree_retrieve_kernel`. A turn past the root stores nothing. -/
def RetrieveWalk.turn (parents : List Nat) (rowWidth leafDepth lid : Nat) (walk : RetrieveWalk)
    (d : Nat) : RetrieveWalk :=
  let col : Int := leafDepth - d
  let valid := d ≤ leafDepth ∧ 0 ≤ col
  { cur := if 0 < walk.cur then parents.getD walk.cur 0 else walk.cur
    written := walk.written ++
      if valid then [(lid * rowWidth + (if valid then col else 0).toNat, (walk.cur : Int))] else [] }

/-- `_tree_retrieve_kernel`: the program of one leaf. -/
def treeRetrieveKernel (parents : List Nat) (depth : Nat → Nat) (leaves : List Nat)
    (rowDepth maxDepth lid : Nat) : List (Nat × Int) :=
  if leaves.length ≤ lid then []
  else
    let leaf := leaves.getD lid 0
    ((List.range (maxDepth + 1)).foldl
      (RetrieveWalk.turn parents (rowDepth + 1) (depth leaf) lid) ⟨leaf, []⟩).written

/-- The nodes that `is_parent.scatter_` leaves unmarked, in ascending order. The root's entry
of the parent tensor is not scattered. -/
def leavesOf (parents : List Nat) : List Nat :=
  (List.range parents.length).filter (fun node => !parents.tail.contains node)

/-- The sort key of a row: padding counts as `maxitem`. -/
def rowKey (maxitem : Nat) (row : List Int) : List Int :=
  row.map (fun entry => if 0 ≤ entry then entry else maxitem)

/-- `sort` by key of the rows of `retrieve_indices`. -/
def sortRows (maxitem : Nat) (rows : List (List Int)) : List (List Int) :=
  rows.mergeSort (fun row other => decide (rowKey maxitem row ≤ rowKey maxitem other))

/-- The tensors handed to verification. -/
structure TreeBuffers where
  treeTokens : List Nat
  treeMask : List (List Nat)
  treePositionIds : List Nat
  retrieveIndices : List (List Int)

/-- The topology half of a finaliser: both kernels over all program ids, each launch in some
order, and the row sort. The walks are `maxDepth` links long and `rowDepth` of the depths is
the largest column of a row. -/
def Finalized (tokens : List Nat) (tnParents : List Int) (sampleToken maxDepth : Nat)
    (rowDepth : List Nat → Nat) (buffers : TreeBuffers) : Prop :=
  let parents := parentTensor tnParents
  let np1 := parents.length
  let walks := (List.range np1).map (treeDepthMaskKernel parents np1 maxDepth)
  let leaves := leavesOf parents
  ∃ (depth mask : Nat → Nat) (ri : Nat → Int),
    Outcome (fun _ => 0) (walks.flatMap DepthWalk.marked) mask ∧
    Outcome (fun _ => 0) ((List.range np1).zip (walks.map DepthWalk.depth)) depth ∧
    Outcome (fun _ => -1) ((List.range leaves.length).flatMap
      (treeRetrieveKernel parents depth leaves (rowDepth ((List.range np1).map depth)) maxDepth)) ri ∧
    buffers = {
      treeTokens := sampleToken :: tokens
      treeMask := view np1 np1 mask
      treePositionIds := (List.range np1).map depth
      retrieveIndices := sortRows (np1 + 5)
        (view leaves.length (rowDepth ((List.range np1).map depth) + 1) ri) }

/-- `build_tree_buffers_triton`: the rows are as wide as the deepest node needs. -/
def BuildTreeBuffersTriton (nNodes : Nat) (tnTokens : List Nat) (tnParents : List Int)
    (sampleToken : Nat) (buffers : TreeBuffers) : Prop :=
  Finalized (tnTokens.take nNodes) (tnParents.take nNodes) sampleToken maxTreeDepth Batch.maximum
    buffers

/-- The topology half of `finalize_tree_gpu`: the rows are as wide as the walk is long. -/
def FinalizeTreeGpu (n : Nat) (tnTokens : List Nat) (tnParents : List Int)
    (sampleToken maxDepth : Nat) (buffers : TreeBuffers) : Prop :=
  Finalized (tnTokens.take n) (tnParents.take n) sampleToken maxDepth (fun _ => maxDepth) buffers

end SpecBlock.Building
