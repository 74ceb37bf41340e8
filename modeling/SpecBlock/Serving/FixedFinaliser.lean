import Mathlib.Order.BoundedOrder.Basic
import SpecBlock.Foundation.ParentChain
import SpecBlock.Serving.RefreshAgreement
import SpecBlock.Serving.TreeLinks

/-!
# The two finalisers of fixed width

A pruned tree of one block is a list of kept raw nodes with flags that tell which of them are in
use. The finaliser packs it behind a root, renumbers the parents, and writes what the verifier
needs: depths, positions, the ancestor mask and the links.

One kernel does it all in a program for each request. It matches every node with every kept node
and spreads the mask as one flat tile. On hardware with less memory three kernels do it: the first
packs the nodes and looks for each parent one candidate after the other, the second writes a row of
the mask in each program, and the third writes the links from the parents that the first one stored.

Both follow the parents of the raw tree, a bounded number of times, while the links and the parents
they store are in the numbers of the packed tree. A kernel is what it stores.
-/

namespace SpecBlock.Serving
open ChildSibling Stores

variable {L : Type} [Zero L] [Bot L]

/-- `MAX_TREE_DEPTH`. -/
def maxTreeDepth : Nat := 20

/-- The buffers a finaliser reads. -/
structure FinaliseMemory (L : Type) where
  rawTokens : Nat → Nat
  rawParents : Nat → Int
  rawLps : Nat → L
  keptIdx : Nat → Nat
  keptValid : Nat → Bool
  sampleTokens : Nat → Nat
  seqLens : Nat → Nat

/-- The constants of a launch. -/
structure FinaliseShape where
  strideRaw : Nat
  strideKept : Nat
  strideOut : Nat
  strideMask : Nat
  N : Nat
  budget : Nat
  blockN : Nat
  maxDepth : Nat

/-- The buffers a finaliser writes. -/
structure TreeOutputs (L : Type) where
  tokens : Nat → Nat
  parents : Nat → Int
  topoParents : Nat → Int
  lps : Nat → L
  depth : Nat → Nat
  positions : Nat → Nat
  mask : Nat → Bool
  retrieveIndex : Nat → Nat
  nextToken : Nat → Int
  nextSibling : Nat → Int

/-- `tl.max` of a vector of at least one lane. -/
def laneMax (lanes : Nat) (vector : Nat → Int) : Int :=
  ((List.range lanes).map vector).foldl max (vector 0)

/-- A walk up the raw parents that counts its nodes. -/
structure DepthWalk where
  curOld : Nat
  active : Bool
  depth : Nat

/-- A turn of the walk; `row` is where the raw parents of the request start. -/
def DepthWalk.turn (rawParents : Nat → Int) (row : Nat) (walk : DepthWalk) : DepthWalk :=
  let parentOld := load rawParents (row + walk.curOld) walk.active (-1)
  let active := walk.active && decide (0 ≤ parentOld)
  { depth := walk.depth + walk.active.toNat
    active := active
    curOld := if active then parentOld.toNat else walk.curOld }

/-- A walk up the raw parents that looks for a key. -/
structure MaskWalk where
  visible : Bool
  curOld : Nat
  active : Bool

/-- A turn of the walk; `sees` tells whether the key is the current node. -/
def MaskWalk.turn (rawParents : Nat → Int) (row : Nat) (sees : Nat → Bool) (walk : MaskWalk) : MaskWalk :=
  let parentOld := load rawParents (row + walk.curOld) walk.active (-1)
  let active := walk.active && decide (0 ≤ parentOld)
  { visible := walk.visible || (walk.active && sees walk.curOld)
    active := active
    curOld := if active then parentOld.toNat else walk.curOld }

namespace FinaliseMemory

variable (memory : FinaliseMemory L) (shape : FinaliseShape) (b : Nat)

/-! ## What both finalisers load for a node -/

/-- `is_nonroot`. -/
def isNonroot (lane : Nat) : Bool := decide (0 < lane ∧ lane < shape.N)

/-- `kept`. -/
def kept (lane : Nat) : Nat :=
  load memory.keptIdx (b * shape.strideKept + (lane - 1)) (isNonroot shape lane) 0

/-- `kept_valid`, or `keep`. -/
def keep (lane : Nat) : Bool :=
  load memory.keptValid (b * shape.strideKept + (lane - 1)) (isNonroot shape lane) false

/-- `valid_nonroot`. -/
def validNonroot (lane : Nat) : Bool := isNonroot shape lane && memory.keep shape b lane

/-- `old_parent`. -/
def oldParent (lane : Nat) : Int :=
  load memory.rawParents (b * shape.strideRaw + memory.kept shape b lane)
    (memory.validNonroot shape b lane) (-1)

/-- What is stored as the token. -/
def token (lane : Nat) : Nat :=
  if lane = 0 then memory.sampleTokens b
  else load memory.rawTokens (b * shape.strideRaw + memory.kept shape b lane)
    (memory.validNonroot shape b lane) 0

/-- What is stored as the log-probability. -/
def lp (lane : Nat) : L :=
  if lane = 0 then 0
  else load memory.rawLps (b * shape.strideRaw + memory.kept shape b lane)
    (memory.validNonroot shape b lane) ⊥

/-- `depth`. -/
def depth (lane : Nat) : Nat :=
  ((DepthWalk.turn memory.rawParents (b * shape.strideRaw))^[shape.maxDepth]
    ⟨memory.kept shape b lane, memory.validNonroot shape b lane, 0⟩).depth

/-- `k_old`, or `key_old`. -/
def keyOld (key : Nat) : Int :=
  load (fun address => (memory.keptIdx address : Int)) (b * shape.strideKept + (key - 1))
    (isNonroot shape key) (-2)

/-! ## One kernel -/

/-- `cand_old`. -/
def candOld (cand : Nat) : Int :=
  load (fun address => (memory.keptIdx address : Int)) (b * shape.strideKept + cand)
    (decide (cand < shape.budget)) (-2)

/-- `cand_keep`. -/
def candKeep (cand : Nat) : Bool :=
  load memory.keptValid (b * shape.strideKept + cand) (decide (cand < shape.budget)) false

/-- `mapped_parent`. -/
def mappedParent (lane : Nat) : Int :=
  laneMax shape.blockN (fun cand =>
    if memory.oldParent shape b lane = memory.candOld shape b cand ∧ memory.candKeep shape b cand ∧
        memory.validNonroot shape b lane then
      (cand : Int) else -1)

/-- `raw_parent_out`. -/
def rawParentOut (lane : Nat) : Int :=
  if lane = 0 then -1
  else if memory.keep shape b lane then
    if 0 ≤ memory.oldParent shape b lane then memory.mappedParent shape b lane else -1
  else -2

/-- `topo_parent`. -/
def topoParent (lane : Nat) : Int :=
  if memory.validNonroot shape b lane then
    if 0 ≤ memory.rawParentOut shape b lane then memory.rawParentOut shape b lane + 1 else 0
  else -1

/-- `visible` at a place of the flat tile, by the query and the key it belongs to. -/
def visible (q k : Nat) : Bool :=
  let qKept := memory.kept shape b q
  let qValid := memory.keep shape b q
  let visible := decide (q = 0 ∧ k = 0) || (decide (0 < q) && !qValid && decide (k = q)) ||
    (decide (0 < q) && qValid && decide (k = 0))
  ((MaskWalk.turn memory.rawParents (b * shape.strideRaw)
      (fun curQOld => decide (0 < k) && decide (memory.keyOld shape b k = curQOld)))^[shape.maxDepth]
    ⟨visible, qKept, decide (0 < q) && qValid⟩).visible

/-- `node_valid`. -/
def nodeValid (lane : Nat) : Bool := decide (lane = 0) || memory.validNonroot shape b lane

/-- `next_token`. -/
def nextToken (lane : Nat) : Int :=
  let inf : Int := shape.N + 1
  let next := laneMin shape.blockN (fun node =>
    if 0 < node ∧ memory.nodeValid shape b node ∧ memory.topoParent shape b node = lane then
      (node : Int) else inf)
  if next < inf then next else -1

/-- `next_sibling`. -/
def nextSibling (lane : Nat) : Int :=
  let inf : Int := shape.N + 1
  let next := laneMin shape.blockN (fun node =>
    if lane < node ∧ memory.nodeValid shape b node ∧ memory.validNonroot shape b lane ∧
        memory.topoParent shape b node = memory.topoParent shape b lane then
      (node : Int) else inf)
  if next < inf then next else -1

/-- The stores of `_finalize_one_block_fixed_kernel` in a buffer of nodes. -/
def nodeStores {A : Type} (value : Nat → A) : List (Nat × A) :=
  maskedStores (List.range shape.blockN) (b * shape.strideOut) (fun lane => decide (lane < shape.N)) value

/-- The stores of `_finalize_one_block_fixed_kernel` in the mask. -/
def maskStores : List (Nat × Bool) :=
  maskedStores (List.range (shape.blockN * shape.blockN)) (b * shape.strideMask)
    (fun place => decide (place / shape.N < shape.N ∧ place - place / shape.N * shape.N < shape.N))
    (fun place => memory.visible shape b (place / shape.N) (place - place / shape.N * shape.N))

/-! ## Three kernels -/

/-- `mapped_parent` of the first stage, which tries the candidates one after the other. -/
def packedMappedParent (lane : Nat) : Int :=
  (List.range shape.budget).foldl (fun mapped candidate =>
    if memory.validNonroot shape b lane ∧ 0 ≤ memory.oldParent shape b lane ∧
        memory.keptValid (b * shape.strideKept + candidate) ∧
        memory.oldParent shape b lane = memory.keptIdx (b * shape.strideKept + candidate) then
      (candidate : Int) else mapped) (-1)

/-- `raw_parent_out` of the first stage. -/
def packedParentOut (lane : Nat) : Int :=
  if lane = 0 then -1
  else if memory.validNonroot shape b lane then
    if 0 ≤ memory.oldParent shape b lane then memory.packedMappedParent shape b lane else -1
  else -2

/-- `topo_parent` of the first stage. -/
def packedTopoParent (lane : Nat) : Int :=
  if memory.validNonroot shape b lane then
    if 0 ≤ memory.packedParentOut shape b lane then memory.packedParentOut shape b lane + 1 else 0
  else -1

/-- `visible` of the second stage. -/
def rowVisible (q key : Nat) : Bool :=
  let qOld := load memory.keptIdx (b * shape.strideKept + (q - 1)) (decide (0 < q)) 0
  let qValid := load memory.keptValid (b * shape.strideKept + (q - 1)) (decide (0 < q)) false
  let visible := decide (q = 0 ∧ key = 0) || (decide (0 < q) && !qValid && decide (key = q)) ||
    (decide (0 < q) && qValid && decide (key = 0))
  ((MaskWalk.turn memory.rawParents (b * shape.strideRaw) (fun current =>
      decide (0 < key) && decide (key < shape.N) &&
        decide (memory.keyOld shape b key = current)))^[shape.maxDepth]
    ⟨visible, qOld, decide (0 < q) && qValid⟩).visible

/-- The stores of a program of `_ancestor_mask_row_kernel`. -/
def ancestorMaskRowKernel (pid : Nat) : List (Nat × Bool) :=
  let b := pid / shape.N
  let q := pid - b * shape.N
  maskedStores (List.range shape.blockN) (b * shape.strideMask + q * shape.N)
    (fun key => decide (key < shape.N)) (memory.rowVisible shape b q)

end FinaliseMemory

/-- The launch of `_finalize_one_block_fixed_kernel` with a program for each request. -/
structure FixedLaunch (memory : FinaliseMemory L) (shape : FinaliseShape) (batch : Nat)
    (before after : TreeOutputs L) : Prop where
  tokens : Outcome before.tokens ((List.range batch).flatMap (fun b =>
    FinaliseMemory.nodeStores shape b (memory.token shape b))) after.tokens
  parents : Outcome before.parents ((List.range batch).flatMap (fun b =>
    FinaliseMemory.nodeStores shape b (memory.rawParentOut shape b))) after.parents
  topoParents : Outcome before.topoParents ((List.range batch).flatMap (fun b =>
    FinaliseMemory.nodeStores shape b (memory.topoParent shape b))) after.topoParents
  lps : Outcome before.lps ((List.range batch).flatMap (fun b =>
    FinaliseMemory.nodeStores shape b (memory.lp shape b))) after.lps
  depth : Outcome before.depth ((List.range batch).flatMap (fun b =>
    FinaliseMemory.nodeStores shape b (memory.depth shape b))) after.depth
  positions : Outcome before.positions ((List.range batch).flatMap (fun b =>
    FinaliseMemory.nodeStores shape b (fun lane => memory.depth shape b lane + memory.seqLens b)))
    after.positions
  mask : Outcome before.mask ((List.range batch).flatMap (memory.maskStores shape)) after.mask
  retrieveIndex : Outcome before.retrieveIndex ((List.range batch).flatMap (fun b =>
    FinaliseMemory.nodeStores shape b (fun lane => lane + b * shape.N))) after.retrieveIndex
  nextToken : Outcome before.nextToken ((List.range batch).flatMap (fun b =>
    FinaliseMemory.nodeStores shape b (memory.nextToken shape b))) after.nextToken
  nextSibling : Outcome before.nextSibling ((List.range batch).flatMap (fun b =>
    FinaliseMemory.nodeStores shape b (memory.nextSibling shape b))) after.nextSibling

/-- The launches of `_pack_depth_topology_kernel`, with a program for each request, and then of
`_ancestor_mask_row_kernel` and `_topology_links_row_kernel`, with one for each node. -/
structure StagedLaunch (memory : FinaliseMemory L) (shape : FinaliseShape) (batch : Nat)
    (before after : TreeOutputs L) : Prop where
  tokens : Outcome before.tokens ((List.range batch).flatMap (fun b =>
    FinaliseMemory.nodeStores shape b (memory.token shape b))) after.tokens
  parents : Outcome before.parents ((List.range batch).flatMap (fun b =>
    FinaliseMemory.nodeStores shape b (memory.packedParentOut shape b))) after.parents
  topoParents : Outcome before.topoParents ((List.range batch).flatMap (fun b =>
    FinaliseMemory.nodeStores shape b (memory.packedTopoParent shape b))) after.topoParents
  lps : Outcome before.lps ((List.range batch).flatMap (fun b =>
    FinaliseMemory.nodeStores shape b (memory.lp shape b))) after.lps
  depth : Outcome before.depth ((List.range batch).flatMap (fun b =>
    FinaliseMemory.nodeStores shape b (memory.depth shape b))) after.depth
  positions : Outcome before.positions ((List.range batch).flatMap (fun b =>
    FinaliseMemory.nodeStores shape b (fun lane => memory.depth shape b lane + memory.seqLens b)))
    after.positions
  retrieveIndex : Outcome before.retrieveIndex ((List.range batch).flatMap (fun b =>
    FinaliseMemory.nodeStores shape b (fun lane => lane + b * shape.N))) after.retrieveIndex
  mask : Outcome before.mask ((List.range (batch * shape.N)).flatMap
    (memory.ancestorMaskRowKernel shape)) after.mask
  links : TopologyLinks ⟨after.topoParents, memory.keptValid⟩ batch shape.strideKept shape.strideOut
    shape.N shape.blockN before.nextToken before.nextSibling after.nextToken after.nextSibling

/-- The constants `finalize_one_block_fixed_batched` launches either finaliser with. -/
def FinaliseShape.fixed (strideRaw budget : Nat) : FinaliseShape where
  strideRaw := strideRaw
  strideKept := budget
  strideOut := budget + 1
  strideMask := (budget + 1) * (budget + 1)
  N := budget + 1
  budget := budget
  blockN := nextPowerOf2 (budget + 1)
  maxDepth := maxTreeDepth

end SpecBlock.Serving
