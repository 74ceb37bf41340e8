import SpecBlock.Foundation.Overwrites
import SpecBlock.Draft.DraftNet

/-!
# Replaying captured draft forwards

A draft forward is captured once for every bucket of batch size and cross count, over static
buffers of the bucket's size. A later call copies its inputs into the buffers, clears what lies
behind them and replays the captured work; writes to the draft cache happen outside of it. A call
whose sizes no bucket holds is refused, and its caller runs the eager forward.

A captured graph reads tensors at the addresses they had at the capture. Some of them are made
lazily and may be dropped later. Forwards of a single position rotate by the fused kernel where there
is one, which reads the joined table of cosines and sines and every row that it has; all others index
the first rows of the cast copy. Growing the base tables drops both. A fused forward that finds the
joined table too short replaces it, without growing anything. And of the causal masks over several
positions only the most recently used ones are kept. What a forward reads where a dropped tensor lay,
or outside of its table, is not defined.

All options are as shipped: the three-part attention and the attention kernel for several positions
are on, both for heads of 128, and the captured graphs have buffers of their own. A row of a table holds
the rotation of its position, whenever the table was made. A list with an entry for every layer is a
function of the layer.
-/

namespace SpecBlock.Draft
open StreamLayer

/-- `CC_BUCKETS`. -/
def ccBuckets : List Nat := [256, 512, 1024, 1536, 2048, 2560, 3072, 3584, 4096,
  4608, 5120, 5632, 6144, 6656, 7168, 7680, 8192]

/-- `B_BUCKETS`. -/
def bBuckets : List Nat := [2, 4, 8, 16, 32]

/-- `B1_CC_BUCKETS`. -/
def b1CcBuckets : List Nat := [128, 256, 512, 768, 1024, 1536, 2048, 2560, 3072, 3584,
  4096, 4608, 5120, 5632, 6144, 6656, 7168, 7680, 8192]

/-- The first bucket that holds a count, or the last one. -/
def bucketFor (buckets : List Nat) (count : Nat) : Nat :=
  (buckets.find? (fun bucket => count ≤ bucket)).getD (buckets.getLastD 0)

/-! ## The draft cache -/

/-- Write rows from a count on, which becomes the live rows' end. -/
def StreamLayer.scatter {α : Type} (layer : StreamLayer α) (cc : Nat) (rows : List α) :
    StreamLayer α :=
  let grown := layer.ensureCacheBuf (cc + rows.length)
  { grown with
    buffer := some (grown.cells.take cc ++ rows.map some ++ grown.cells.drop (cc + rows.length))
    count := cc + rows.length }

theorem StreamLayer.ensureCacheBuf_length {α : Type} (layer : StreamLayer α) (needed : Nat)
    (fits : layer.count ≤ layer.cells.length) :
    needed ≤ (layer.ensureCacheBuf needed).cells.length := by
  unfold StreamLayer.ensureCacheBuf
  cases held : layer.buffer with
  | none => exact (Nat.le_max_right layer.maxLen needed).trans_eq (List.length_replicate ..).symm
  | some rows =>
    simp only [cells, held, Option.getD_some] at fits
    by_cases small : rows.length < needed
    · simp [cells, small]
      omega
    · simpa [cells, small, held] using Nat.le_of_not_lt small

/-- The draft cache: all layers have the same count, and either all have a buffer or none. -/
structure DraftCache (V : Type) where
  layer : Nat → StreamLayer (HeadCell V)
  alike : ∀ index, (layer index).count = (layer 0).count
  together : ∀ index, (layer index).buffer.isSome = (layer 0).buffer.isSome
  fits : ∀ index, (layer index).count ≤ (layer index).cells.length

namespace DraftCache

variable {V : Type}

/-- `reset_cache`. -/
def reset (maxCacheLen : Nat) : DraftCache V where
  layer := fun _ => StreamLayer.reset maxCacheLen
  alike := fun _ => rfl
  together := fun _ => rfl
  fits := fun _ => Nat.le_refl 0

/-- The cross count a call reads. -/
def count (cache : DraftCache V) : Nat :=
  if (cache.layer 0).buffer.isSome then (cache.layer 0).count else 0

/-- Write slots' cells into every layer from a count on. -/
def scatter (cache : DraftCache V) (cc size : Nat) (cells : Nat → Nat → HeadCell V)
    (same : cc = (cache.layer 0).count) : DraftCache V where
  layer := fun index => (cache.layer index).scatter cc ((List.range size).map (cells index))
  alike := fun index => by simp [StreamLayer.scatter]
  together := fun index => by simp [StreamLayer.scatter]
  fits := fun index => by
    have grown := (cache.layer index).ensureCacheBuf_length
      (cc + ((List.range size).map (cells index)).length) (cache.fits index)
    rw [List.length_map, List.length_range] at grown
    simp only [StreamLayer.scatter, StreamLayer.cells, Option.getD_some, List.length_append,
      List.length_take, List.length_drop, List.length_map, List.length_range] at grown ⊢
    omega

theorem count_eq (cache : DraftCache V) : cache.count = (cache.layer 0).count := by
  unfold count
  cases held : (cache.layer 0).buffer with
  | none =>
    have empty := cache.fits 0
    simp only [StreamLayer.cells, held, Option.getD_none, List.length_nil] at empty
    simp [Nat.le_zero.mp empty]
  | some rows => rfl

end DraftCache

/-! ## Tensors that are made lazily -/

/-- The causal masks over several positions that are kept, by their number of positions; the rows of
the base tables; and the cast copy and the joined table made from these rows, if there are any. The
base tables are never shorter than they were at first. -/
structure LazyTensors (ropeMaxPos : Nat) where
  masks : RecentlyUsed Nat
  ropeRows : Nat
  castCopy : Option Nat
  joined : Option Nat
  next : Nat
  long : ropeMaxPos ≤ ropeRows

/-- What an eager forward looks up. -/
inductive EagerUse where
  | mask (N : Nat)
  | plainRope (ropeLen : Nat)
  | fusedRope (ropeLen : Nat)

/-- The rows of the base tables once a forward has looked something up: only the plain path grows
them. -/
def grownRows (rows : Nat) : EagerUse → Nat
  | .plainRope ropeLen => if rows < ropeLen then ropeLen + 100 else rows
  | _ => rows

namespace LazyTensors

variable {ropeMaxPos : Nat}

/-- `lru_cache` of `_build_cross_position_mask`. -/
def maskCapacity : Nat := 16

/-- Look a mask up. -/
def lookupMask (tensors : LazyTensors ropeMaxPos) (N : Nat) : Nat × LazyTensors ropeMaxPos :=
  ((tensors.masks.lookup maskCapacity N).1,
    { tensors with masks := (tensors.masks.lookup maskCapacity N).2 })

/-- Base tables that are too short are built anew, which drops what was made from them. -/
def grow (tensors : LazyTensors ropeMaxPos) (ropeLen : Nat) : LazyTensors ropeMaxPos :=
  if short : tensors.ropeRows < ropeLen then
    { tensors with
      ropeRows := ropeLen + 100
      castCopy := none
      joined := none
      long := tensors.long.trans (by omega) }
  else tensors

/-- `RotaryEmbedding.forward`: the cast copy, of base tables that are long enough. -/
def lookupPlain (tensors : LazyTensors ropeMaxPos) (ropeLen : Nat) : Nat × LazyTensors ropeMaxPos :=
  let grown := tensors.grow ropeLen
  match grown.castCopy with
  | some copy => (copy, grown)
  | none => (grown.next, { grown with castCopy := some grown.next, next := grown.next + 1 })

/-- `get_sgl_cos_sin_cache`: the joined table, made anew where there is none or it is too short. -/
def lookupFused (tensors : LazyTensors ropeMaxPos) (ropeLen : Nat) : Nat × LazyTensors ropeMaxPos :=
  match tensors.joined with
  | some table =>
    if tensors.ropeRows < ropeLen then
      (tensors.next, { tensors with joined := some tensors.next, next := tensors.next + 1 })
    else (table, tensors)
  | none => (tensors.next, { tensors with joined := some tensors.next, next := tensors.next + 1 })

/-- The rotation table of a path. -/
def lookupRope (tensors : LazyTensors ropeMaxPos) (fused : Bool) (ropeLen : Nat) :
    Nat × LazyTensors ropeMaxPos :=
  if fused then tensors.lookupFused ropeLen else tensors.lookupPlain ropeLen

/-- What an eager forward looks up. -/
def use (tensors : LazyTensors ropeMaxPos) : EagerUse → LazyTensors ropeMaxPos
  | .mask N => (tensors.lookupMask N).2
  | .plainRope ropeLen => (tensors.lookupPlain ropeLen).2
  | .fusedRope ropeLen => (tensors.lookupFused ropeLen).2

/-- The table of a path is still the one of a name. -/
def HoldsRope (tensors : LazyTensors ropeMaxPos) (fused : Bool) (table : Nat) : Prop :=
  (if fused then tensors.joined else tensors.castCopy) = some table

instance (tensors : LazyTensors ropeMaxPos) (fused : Bool) (table : Nat) :
    Decidable (tensors.HoldsRope fused table) :=
  inferInstanceAs (Decidable (_ = _))

/-- The rows a captured graph can read: all of the joined table, and of the cast copy the rows it was
cut to. -/
def readableRows (tensors : LazyTensors ropeMaxPos) (fused : Bool) : Nat :=
  if fused then tensors.ropeRows else ropeMaxPos

end LazyTensors

/-! ## Calls -/

/-- Arguments of `run` besides the cross cache: rows of the batch with their cached cells. -/
structure RunInputs (V : Type) where
  N : Nat
  hidden : Nat → V
  inputIds : Nat → Nat
  tttCount : Nat
  tttCache : Nat → Nat → Nat → HeadCell V
  tttMask : Nat → Nat → Bool
  positionId : Nat
  rows : 0 < N

/-- Arguments of `run_block1`. -/
structure Block1Inputs (V : Type) where
  hidden3h : V
  inputId : Nat
  positionId : Nat

/-- Arguments of `run_update_cache`. -/
structure UpdateInputs (V : Type) where
  N : Nat
  hidden3h : Nat → V
  inputIds : Nat → Nat
  startPosition : Nat
  positions : 0 < N

/-- A call of the graph cache. -/
inductive Call (V : Type) where
  | run (inputs : RunInputs V)
  | runBlock1 (inputs : Block1Inputs V)
  | runUpdateCache (inputs : UpdateInputs V)

/-- What a call returns: outputs of its rows, and the new position of an update. -/
structure CallOutput (V : Type) where
  rows : List (RowOutput V)
  newPosition : Option Nat

/-- How a call of the graph cache ends. -/
inductive Reply (V : Type) where
  | outOfBucket
  | undefined
  | done (rows : List (RowForward V))

variable {V : Type} (net : DraftNet V)

/-- Live rows without the last position's, as the callers of `run` count them. -/
def effectiveCrossCount (cache : DraftCache V) : Nat :=
  if net.K ≤ (cache.layer 0).count then (cache.layer 0).count - net.K else 0

/-- The cross cache's views of the first cells: the callers of `run` pass them, the other calls
copy from them. -/
def crossSlices (cache : DraftCache V) (cc index : Nat) : Option (List (HeadCell V)) :=
  if 0 < cc ∧ (cache.layer index).buffer.isSome then some (net.firstCells (cache.layer index) cc)
  else none

/-- What a call returns. -/
def callOutput (rows : List (RowForward V)) : Call V → CallOutput V
  | .run _ => ⟨rows.map (net.rowOutput 0), none⟩
  | .runBlock1 _ => ⟨rows.map (net.rowOutput 0), none⟩
  | .runUpdateCache inputs => ⟨rows.map (net.rowOutput ((inputs.N - 1) * net.K)),
      some (inputs.startPosition + inputs.N)⟩

/-! ## The eager forwards -/

/-- The rows an eager forward of a single position can read: the fused kernel those of the base tables,
the other path as many as it asks for, since it grows the tables. -/
def eagerRows (ropeRows ropeLen : Nat) : Nat := if net.fusedRope then ropeRows else ropeLen

/-- `forward_with_cache` on pending rows. The three-part attention needs a tensor for the cross
cache, also an empty one. -/
def eagerRun (ropeRows : Nat) (slices : Nat → Option (List (HeadCell V))) (cc : Nat) (inputs : RunInputs V) :
    Option (List (RowForward V)) :=
  if net.headDim = 128 ∧ ¬ (slices 0).isSome then none
  else if ¬ DraftNet.inTable (eagerRows net ropeRows (inputs.positionId + net.K + 1)) net.K
      (DraftNet.posIds inputs.positionId) then none
  else some ((List.range inputs.N).map (fun row =>
    net.forwardRow
      (net.singleSight (fun layer => (slices layer).getD [])
        (fun layer => (List.range inputs.tttCount).map (inputs.tttCache layer row))
        (inputs.tttMask row)
        (fun index => if index < cc then true else inputs.tttMask row (index - cc)))
      (DraftNet.posIds inputs.positionId)
      (net.inputDraft (inputs.hidden row) (inputs.inputIds row))))

/-- The row of `forward_with_cache` on the target's hidden states. -/
def eagerBlock1Row (cache : DraftCache V) (inputs : Block1Inputs V) : RowForward V :=
  net.forwardRow
    (net.singleSight (fun layer => net.firstCells (cache.layer layer) (cache.layer layer).count)
      (fun _ => []) (fun _ => false) (fun _ => true))
    (DraftNet.posIds inputs.positionId) (net.inputTarget inputs.hidden3h inputs.inputId)

/-- `forward_with_cache` on the target's hidden states, which appends its slots to the cache. -/
def eagerBlock1 (ropeRows : Nat) (cache : DraftCache V) (inputs : Block1Inputs V) :
    Option (RowForward V × DraftCache V) :=
  if net.headDim = 128 ∧ ¬ (cache.layer 0).buffer.isSome then none
  else if ¬ DraftNet.inTable (eagerRows net ropeRows (inputs.positionId + net.K + 1)) net.K
      (DraftNet.posIds inputs.positionId) then none
  else some (eagerBlock1Row net cache inputs,
    cache.scatter (cache.layer 0).count net.K
      (fun layer slot => net.repeatKv ((eagerBlock1Row net cache inputs).keys layer slot)) rfl)

/-- The row of `update_cache_and_draft`. -/
def eagerUpdateRow (cache : DraftCache V) (inputs : UpdateInputs V) : RowForward V :=
  net.forwardRow
    (net.batchSight inputs.N
      (fun layer => net.firstCells (cache.layer layer) (cache.layer layer).count) (fun _ => true))
    (net.batchPosIds inputs.startPosition) (net.inputBatch inputs.hidden3h inputs.inputIds)

/-- `update_cache_and_draft`: the eager forward that the graphs stand in for. Positions behind the table are
an error. -/
def eagerUpdate (cache : DraftCache V) (inputs : UpdateInputs V) :
    Option (RowForward V × DraftCache V) :=
  if ¬ DraftNet.inTable (inputs.startPosition + inputs.N + net.K) (inputs.N * net.K)
      (net.batchPosIds inputs.startPosition) then none
  else some (eagerUpdateRow net cache inputs,
    cache.scatter (cache.layer 0).count (inputs.N * net.K)
      (fun layer slot => net.repeatKv ((eagerUpdateRow net cache inputs).keys layer slot)) rfl)

/-- The eager forward in place of a call: its outputs and the cache behind it. A forward that
raises, or whose outputs are not defined, leaves the cache as it is. -/
def eagerCall (ropeRows : Nat) (cache : DraftCache V) : Call V → Option (CallOutput V) × DraftCache V
  | .run inputs =>
    let cc := effectiveCrossCount net cache
    ((eagerRun net ropeRows (crossSlices net cache cc) cc inputs).map
      (fun rows => callOutput net rows (.run inputs)), cache)
  | .runBlock1 inputs =>
    match eagerBlock1 net ropeRows cache inputs with
    | some (row, following) => (some (callOutput net [row] (.runBlock1 inputs)), following)
    | none => (none, cache)
  | .runUpdateCache inputs =>
    match eagerUpdate net cache inputs with
    | some (row, following) => (some (callOutput net [row] (.runUpdateCache inputs)), following)
    | none => (none, cache)

/-- The rotation table of a forward of a single position. -/
def singleUse (ropeLen : Nat) : EagerUse :=
  if net.fusedRope then .fusedRope ropeLen else .plainRope ropeLen

/-- What the eager forward looks up. Over several positions the attention kernel for heads of 128 works
without a mask. -/
def eagerUses : Call V → List EagerUse
  | .run inputs => [singleUse net (inputs.positionId + net.K + 1)]
  | .runBlock1 inputs => [singleUse net (inputs.positionId + net.K + 1)]
  | .runUpdateCache inputs => .plainRope (inputs.startPosition + inputs.N + net.K) ::
      (if net.headDim = 128 then [] else [.mask inputs.N])

/-! ## Captured graphs -/

/-- Static buffers of a graph of `run`, and the rotation table it reads. -/
structure RunGraph (V : Type) where
  hidden : Nat → V
  inputIds : Nat → Nat
  posIds : Nat → Nat → Nat
  cross : Nat → Nat → Nat → HeadCell V
  ttt : Nat → Nat → Nat → HeadCell V
  tttMask : Nat → Nat → Bool
  fullKvMask : Nat → Nat → Bool
  ropeTable : Nat

/-- Static buffers of a graph for one row, the rotation table it reads, and for an update the
causal mask. -/
structure RowGraph (V : Type) where
  hidden : Nat → V
  inputIds : Nat → Nat
  posIds : Nat → Nat
  cross : Nat → Nat → HeadCell V
  crossMask : Nat → Bool
  ropeTable : Nat
  mask : Option Nat

/-- The graph cache with the current request's draft cache. -/
structure GraphState {V : Type} (net : DraftNet V) where
  cache : DraftCache V
  graphs : Nat × Nat × Nat → Option (RunGraph V)
  b1Graphs : Nat → Option (RowGraph V)
  updGraphs : Nat × Nat → Option (RowGraph V)
  tensors : LazyTensors net.ropeMaxPos

/-- The rotation table that a forward looks up while it is captured: it asks for the rows that the
tables had at first. -/
def capturedRope (tensors : LazyTensors net.ropeMaxPos) (fused : Bool) :
    Nat × LazyTensors net.ropeMaxPos :=
  tensors.lookupRope fused net.ropeMaxPos

/-- `_capture`: static buffers of zeros. -/
def capture (ropeTable : Nat) : RunGraph V where
  hidden := fun _ => net.zero
  inputIds := fun _ => 0
  posIds := fun _ _ => 0
  cross := fun _ _ _ => net.zeroCell
  ttt := fun _ _ _ => net.zeroCell
  tttMask := fun _ _ => false
  fullKvMask := fun _ _ => false
  ropeTable := ropeTable

/-- `_capture_block1`, and `_capture_upd` with a mask. -/
def captureRow (ropeTable : Nat) (mask : Option Nat) : RowGraph V where
  hidden := fun _ => net.zero
  inputIds := fun _ => 0
  posIds := fun _ => 0
  cross := fun _ _ => net.zeroCell
  crossMask := fun _ => false
  ropeTable := ropeTable
  mask := mask

/-- Copy a layer's first cells into a static buffer and clear what lies behind them. -/
def copyCross (source : Option (List (HeadCell V))) (cc : Nat) (held : Nat → HeadCell V) :
    Nat → HeadCell V :=
  clearFrom cc net.zeroCell (match source with
    | some cells => writeBelow cc (fun slot => cells.getD slot net.zeroCell) held
    | none => held)

/-- Copies of `run` into the static buffers. -/
def RunGraph.fill (graph : RunGraph V) (slices : Nat → Option (List (HeadCell V)))
    (cc ccBucket : Nat) (inputs : RunInputs V) : RunGraph V where
  posIds := fun _ => DraftNet.posIds inputs.positionId
  hidden := clearFrom inputs.N net.zero (writeBelow inputs.N inputs.hidden graph.hidden)
  inputIds := clearFrom inputs.N 0 (writeBelow inputs.N inputs.inputIds graph.inputIds)
  cross := fun layer row => copyCross net (slices layer) cc (graph.cross layer row)
  ttt := fun layer => clearFrom inputs.N (fun _ => net.zeroCell)
    (writeBelow inputs.N (inputs.tttCache layer) (graph.ttt layer))
  tttMask := clearFrom inputs.N (fun _ => false)
    (writeBelow inputs.N inputs.tttMask graph.tttMask)
  -- the first rows: cross cells open, bucket padding shut, cached cells as their mask says
  fullKvMask := clearFrom inputs.N (fun _ => false) (writeBelow inputs.N (fun row index =>
    if index < cc then true else if index < ccBucket then false
    else inputs.tttMask row (index - ccBucket)) graph.fullKvMask)
  ropeTable := graph.ropeTable

/-- What a row of a graph computes. -/
def RunGraph.row (graph : RunGraph V) (ccBucket tttCount row : Nat) : RowForward V :=
  net.forwardRow
    (net.singleSight (fun layer => (List.range ccBucket).map (graph.cross layer row))
      (fun layer => (List.range tttCount).map (graph.ttt layer row))
      (graph.tttMask row) (graph.fullKvMask row))
    (graph.posIds row) (net.inputDraft (graph.hidden row) (graph.inputIds row))

/-- Replay a graph of `run` and cut its rows. -/
def RunGraph.replay (graph : RunGraph V) (tensors : LazyTensors net.ropeMaxPos)
    (bBucket ccBucket tttCount N : Nat) :
    Reply V :=
  if tensors.HoldsRope net.fusedRope graph.ropeTable ∧ (List.range bBucket).all (fun row =>
      DraftNet.inTable (tensors.readableRows net.fusedRope) net.K (graph.posIds row)) then
    .done (((List.range bBucket).map (graph.row net ccBucket tttCount)).take N)
  else .undefined

/-- Copies of a call for one row into the static buffers. -/
def RowGraph.fill (graph : RowGraph V) (cache : DraftCache V) (cc ccBucket : Nat)
    (hidden3h : Nat → V) (inputIds posIds : Nat → Nat) : RowGraph V where
  posIds := posIds
  hidden := hidden3h
  inputIds := inputIds
  cross := fun layer => copyCross net (crossSlices net cache cc layer) cc (graph.cross layer)
  crossMask := fun index => if index < cc then true else if index < ccBucket then false
    else graph.crossMask index
  ropeTable := graph.ropeTable
  mask := graph.mask

/-- What a graph of `run_block1` computes. -/
def RowGraph.block1Row (graph : RowGraph V) (ccBucket : Nat) : RowForward V :=
  net.forwardRow
    (net.singleSight (fun layer => (List.range ccBucket).map (graph.cross layer))
      (fun _ => []) (fun _ => false) graph.crossMask)
    graph.posIds (net.inputTarget (graph.hidden 0) (graph.inputIds 0))

/-- What a graph of `run_update_cache` computes. -/
def RowGraph.updateRow (graph : RowGraph V) (N ccBucket : Nat) : RowForward V :=
  net.forwardRow
    (net.batchSight N (fun layer => (List.range ccBucket).map (graph.cross layer)) graph.crossMask)
    graph.posIds (net.inputBatch graph.hidden graph.inputIds)

/-- The tensors a graph for one row reads are still there, and its positions are in the table of its
path. -/
def RowGraph.intact (graph : RowGraph V) (tensors : LazyTensors net.ropeMaxPos) (fused : Bool)
    (size : Nat) : Bool :=
  decide (tensors.HoldsRope fused graph.ropeTable) &&
    (match graph.mask with | some mask => decide (tensors.masks.Holds mask) | none => true) &&
    DraftNet.inTable (tensors.readableRows fused) size graph.posIds

/-! ## Calls of the graph cache -/

variable {net}

/-- The graph of `run` under a key. If there is none it is captured, and only the capture looks a
rotation table up. -/
def GraphState.runGraph (state : GraphState net) (key : Nat × Nat × Nat) :
    RunGraph V × LazyTensors net.ropeMaxPos :=
  match state.graphs key with
  | some graph => (graph, state.tensors)
  | none =>
    (capture net (capturedRope net state.tensors net.fusedRope).1,
      (capturedRope net state.tensors net.fusedRope).2)

/-- `run`. The smallest buckets that hold the call select a graph, which is captured at its first
use; a call behind the last bucket is left to the caller. -/
def GraphState.run (state : GraphState net) (slices : Nat → Option (List (HeadCell V))) (cc : Nat)
    (inputs : RunInputs V) : Reply V × GraphState net :=
  if ccBuckets.getLastD 0 < cc ∨ bBuckets.getLastD 0 < inputs.N then (.outOfBucket, state)
  else
    let bBucket := bucketFor bBuckets inputs.N
    let ccBucket := bucketFor ccBuckets cc
    let key := (bBucket, ccBucket, inputs.tttCount)
    let graph := (state.runGraph key).1
    let tensors := (state.runGraph key).2
    let filled := graph.fill net slices cc ccBucket inputs
    (filled.replay net tensors bBucket ccBucket inputs.tttCount inputs.N,
      { state with graphs := Function.update state.graphs key (some filled), tensors := tensors })

/-- The graph of `run_block1`, captured where there is none. -/
def GraphState.block1Graph (state : GraphState net) : RowGraph V × LazyTensors net.ropeMaxPos :=
  match state.b1Graphs (bucketFor b1CcBuckets state.cache.count) with
  | some graph => (graph, state.tensors)
  | none =>
    (captureRow net (capturedRope net state.tensors net.fusedRope).1 none,
      (capturedRope net state.tensors net.fusedRope).2)

/-- `run_block1`. The cache is read through the graph's own buffers, and the block's keys are
appended to it when the replay was sound. -/
def GraphState.runBlock1 (state : GraphState net) (inputs : Block1Inputs V) :
    Reply V × GraphState net :=
  let cc := state.cache.count
  if b1CcBuckets.getLastD 0 < cc then (.outOfBucket, state)
  else
    let ccBucket := bucketFor b1CcBuckets cc
    let graph := state.block1Graph.1
    let tensors := state.block1Graph.2
    let filled := graph.fill net state.cache cc ccBucket (fun _ => inputs.hidden3h)
      (fun _ => inputs.inputId) (DraftNet.posIds inputs.positionId)
    let following := { state with
      b1Graphs := Function.update state.b1Graphs ccBucket (some filled), tensors := tensors }
    if filled.intact net tensors net.fusedRope net.K then
      let row := filled.block1Row net ccBucket
      (.done [row], { following with
        cache := state.cache.scatter cc net.K
          (fun layer slot => net.repeatKv (row.keys layer slot)) state.cache.count_eq })
    else (.undefined, following)

/-- The graph of `run_update_cache`, which rotates by the cast copy whether the kernel is there or not.
If there is none it is captured, and only the capture looks the causal mask up. -/
def GraphState.updateGraph (state : GraphState net) (inputs : UpdateInputs V) :
    RowGraph V × LazyTensors net.ropeMaxPos :=
  match state.updGraphs (inputs.N, bucketFor b1CcBuckets state.cache.count) with
  | some graph => (graph, state.tensors)
  | none =>
    let rope := capturedRope net state.tensors false
    (captureRow net rope.1 (some (rope.2.lookupMask inputs.N).1), (rope.2.lookupMask inputs.N).2)

/-- `run_update_cache`. There is one graph for each number of positions and bucket. -/
def GraphState.runUpdateCache (state : GraphState net) (inputs : UpdateInputs V) :
    Reply V × GraphState net :=
  let cc := state.cache.count
  if b1CcBuckets.getLastD 0 < cc then (.outOfBucket, state)
  else
    let ccBucket := bucketFor b1CcBuckets cc
    let key := (inputs.N, ccBucket)
    let graph := (state.updateGraph inputs).1
    let tensors := (state.updateGraph inputs).2
    let filled := graph.fill net state.cache cc ccBucket
      inputs.hidden3h inputs.inputIds (net.batchPosIds inputs.startPosition)
    let following := { state with
      updGraphs := Function.update state.updGraphs key (some filled), tensors := tensors }
    if filled.intact net tensors false (inputs.N * net.K) then
      let row := filled.updateRow net inputs.N ccBucket
      (.done [row], { following with
        cache := state.cache.scatter cc (inputs.N * net.K)
          (fun layer slot => net.repeatKv (row.keys layer slot)) state.cache.count_eq })
    else (.undefined, following)

/-- A call of the graph cache on the current request's draft cache. -/
def GraphState.call (state : GraphState net) : Call V → Reply V × GraphState net
  | .run inputs =>
    let cc := effectiveCrossCount net state.cache
    state.run (crossSlices net state.cache cc) cc inputs
  | .runBlock1 inputs => state.runBlock1 inputs
  | .runUpdateCache inputs => state.runUpdateCache inputs

/-- A call as its caller makes it: the eager forward follows a refusal. -/
def GraphState.callOrEager (state : GraphState net) (call : Call V) :
    Option (CallOutput V) × GraphState net :=
  match state.call call with
  | (.outOfBucket, _) =>
    ((eagerCall net state.tensors.ropeRows state.cache call).1, { state with
      cache := (eagerCall net state.tensors.ropeRows state.cache call).2
      tensors := (eagerUses net call).foldl LazyTensors.use state.tensors })
  | (.undefined, following) => (none, following)
  | (.done rows, following) => (some (callOutput net rows call), following)

/-! ## Runs -/

/-- What happens between two calls and at them: the rest of the program resets, fills or cuts the
draft cache and makes eager forwards. -/
inductive Event (V : Type) where
  | between (change : DraftCache V → DraftCache V) (uses : List EagerUse)
  | call (call : Call V)

variable (net) in
/-- The graph cache of a new model. -/
def GraphState.fresh (maxCacheLen : Nat) : GraphState net where
  cache := DraftCache.reset maxCacheLen
  graphs := fun _ => none
  b1Graphs := fun _ => none
  updGraphs := fun _ => none
  tensors := ⟨⟨[], 0⟩, net.ropeMaxPos, none, none, 0, Nat.le_refl _⟩

/-- The rest of the program between two calls. -/
def GraphState.between (state : GraphState net) (change : DraftCache V → DraftCache V)
    (uses : List EagerUse) : GraphState net :=
  { state with cache := change state.cache, tensors := uses.foldl LazyTensors.use state.tensors }

/-- What the calls of a run return, each with the cache behind it. -/
def graphTrace : GraphState net → List (Event V) → List (Option (CallOutput V) × DraftCache V)
  | _, [] => []
  | state, .between change uses :: rest => graphTrace (state.between change uses) rest
  | state, .call call :: rest =>
    ((state.callOrEager call).1, (state.callOrEager call).2.cache) ::
      graphTrace (state.callOrEager call).2 rest

variable (net) in
/-- What the eager forwards of a run return, each with the cache behind it. They grow the base tables
on their way. -/
def eagerTrace : Nat → DraftCache V → List (Event V) → List (Option (CallOutput V) × DraftCache V)
  | _, _, [] => []
  | ropeRows, cache, .between change uses :: rest =>
    eagerTrace (uses.foldl grownRows ropeRows) (change cache) rest
  | ropeRows, cache, .call call :: rest =>
    eagerCall net ropeRows cache call ::
      eagerTrace ((eagerUses net call).foldl grownRows ropeRows)
        (eagerCall net ropeRows cache call).2 rest

/-- Every call of a run, with the state it is made in, has a property. -/
def EveryCall (property : GraphState net → Call V → Prop) : GraphState net → List (Event V) → Prop
  | _, [] => True
  | state, .between change uses :: rest => EveryCall property (state.between change uses) rest
  | state, .call call :: rest =>
    property state call ∧ EveryCall property (state.callOrEager call).2 rest

end SpecBlock.Draft
