import SpecBlock.Batch.TargetCache
import SpecBlock.Draft.ContextSlots

/-!
# The draft cache of the batched loop

`_DraftBatchCache` keeps one storage per layer with a row per active request, the number
of live slots of each row, once on the host and once on the device, and a capacity. Layers
refer to the device vector: an upload changes it in place, and where it is replaced every
layer is given the new one. A forward over ragged rows appends each row's valid slots at
its own tail. Rows are gathered when requests finish.

A storage cell stands for a key and its value, and the default hidden row is a zeroed one.
What a forward returns besides its writes is left out, as is the compiled variant of it for a
single request.
-/

namespace SpecBlock.Draft

open Serving Batch

variable {α H : Type}

/-- A layer's storage with its width, the device vector of lengths it refers to, and the
capacity it was declared with. -/
structure DraftLayer (α : Type) where
  storage : Option (Storage (Option α))
  width : Nat
  lengths : Nat
  maxCacheLen : Nat

/-- `_DraftBatchCache`. Device vectors are numbered in the order they are made. -/
structure DraftBatchCache (α : Type) where
  layers : List (DraftLayer α)
  lengthsHost : List Nat
  lengths : Nat
  vectors : Nat → List Nat

namespace DraftBatchCache

/-- `__init__`. No row holds a slot, and no layer has storage before its first write. -/
def new (numLayers batchSize maxCacheLen : Nat) : DraftBatchCache α where
  layers := List.replicate numLayers ⟨none, 0, 0, maxCacheLen⟩
  lengthsHost := List.replicate batchSize 0
  lengths := 0
  vectors := fun _ => List.replicate batchSize 0

/-- `active_batch_size`. -/
def activeBatchSize (cache : DraftBatchCache α) : Nat := cache.lengthsHost.length

/-- Contents of the device vector. -/
def deviceLengths (cache : DraftBatchCache α) : List Nat := cache.vectors cache.lengths

/-- Replace the device vector and point every layer at the new one. -/
def replaceLengths (contents : List Nat) (cache : DraftBatchCache α) : DraftBatchCache α :=
  { cache with
    lengths := cache.lengths + 1
    vectors := Function.update cache.vectors (cache.lengths + 1) contents
    layers := cache.layers.map (fun layer => { layer with lengths := cache.lengths + 1 }) }

/-- `_upload_lengths`. The device vector is overwritten in place, so views of it follow; only an
empty batch gets a vector of its own. -/
def uploadLengths (cache : DraftBatchCache α) : DraftBatchCache α :=
  if cache.lengthsHost = [] then cache.replaceLengths (cache.deviceLengths.take 0)
  else { cache with vectors := Function.update cache.vectors cache.lengths cache.lengthsHost }

/-- `advance`: a row grows by the slots of its valid positions. The slots themselves are written by
the forward. -/
def advance (validLengths : List Nat) (K : Nat) (cache : DraftBatchCache α) :
    Except String (DraftBatchCache α) :=
  if validLengths.length ≠ cache.activeBatchSize then
    .error "draft valid lengths must match active cache rows"
  else
    .ok (uploadLengths { cache with
      lengthsHost := List.zipWith (fun length valid => length + valid * K) cache.lengthsHost
        validLengths })

/-- One row's share of a rollback. -/
def rollbackRow (K : Nat) (lengthsHost : List Nat) (row : Nat) : Except String (List Nat) :=
  match lengthsHost[row]? with
  | none => .error "list index out of range"
  | some length =>
    if length < K then .error "cannot roll back an empty draft cache row"
    else .ok (lengthsHost.set row (length - K))

/-- `rollback_rows`. The rows lose their last block one after the other; the first that has none fails
the call. -/
def rollbackRows (rows : List Nat) (K : Nat) (cache : DraftBatchCache α) :
    Except String (DraftBatchCache α) := do
  let lengthsHost ← rows.foldlM (rollbackRow K) cache.lengthsHost
  return uploadLengths { cache with lengthsHost := lengthsHost }

/-- `prefix_layers`: the layers, with the lengths each of them is read with. -/
def prefixLayers (rowCount : Nat) (cache : DraftBatchCache α) :
    Except String (List (DraftLayer α × List Nat)) :=
  if rowCount = 0 ∨ cache.activeBatchSize < rowCount then
    .error "draft cache prefix row count is out of range"
  else if rowCount = cache.activeBatchSize then
    .ok (cache.layers.map (fun layer => (layer, cache.vectors layer.lengths)))
  else if cache.layers.any (fun layer => layer.storage.isNone) then
    .error "draft cache must be initialized before slicing inactive rows"
  else
    .ok (cache.layers.map (fun layer => (layer, cache.deviceLengths.take rowCount)))

/-- `compact_rows`. A prefix of the rows stays in place. -/
def compactRows (rowIndices : List Nat) (cache : DraftBatchCache α) : DraftBatchCache α :=
  if rowIndices = List.range rowIndices.length then
    replaceLengths (cache.deviceLengths.take rowIndices.length)
      { cache with lengthsHost := cache.lengthsHost.take rowIndices.length }
  else
    let usedWidth := maximum (rowIndices.map (fun index => cache.lengthsHost.getD index 0))
    replaceLengths (rowIndices.map (fun index => cache.deviceLengths.getD index 0))
      { cache with
        layers := cache.layers.map (fun layer => { layer with
          storage := layer.storage.map (fun storage row column =>
            if row < rowIndices.length ∧ column < usedWidth then
              storage (rowIndices.getD row 0) column
            else storage row column) })
        lengthsHost := rowIndices.map (fun index => cache.lengthsHost.getD index 0) }

end DraftBatchCache

namespace DraftLayer

/-- Allocate the storage, or grow it when it is too narrow. -/
def ensureWidth (needed : Nat) (layer : DraftLayer α) : DraftLayer α :=
  match layer.storage with
  | none => { layer with storage := some (fun _ _ => none), width := max layer.maxCacheLen needed }
  | some storage =>
    if layer.width < needed then
      let grown := max (layer.width * 2) needed
      { layer with
        storage := some (fun row column => if column < layer.width then storage row column else none)
        width := grown
        maxCacheLen := grown }
    else layer

/-- `_append_ragged_kv_kernel` over all programs: each row's valid slots go behind its live
ones, as far as the storage reaches. -/
def appendRagged (rows slots : Nat) (current : Nat → Nat → α) (lengths validSlots : List Nat)
    (layer : DraftLayer α) : DraftLayer α :=
  { layer with
    storage := layer.storage.map (fun storage row column =>
      let length := lengths.getD row 0
      if row < rows ∧ length ≤ column ∧ column - length < slots ∧
          column - length < validSlots.getD row 0 ∧ column < layer.width then
        some (current row (column - length))
      else storage row column) }

/-- The cache writes of `forward_batch_ragged`. -/
def forwardBatchRagged (rows slots : Nat) (current : Nat → Nat → α) (lengths validSlots : List Nat)
    (maxTotalSlots : Nat) (layer : DraftLayer α) : DraftLayer α :=
  (layer.ensureWidth maxTotalSlots).appendRagged rows slots current lengths validSlots

/-- What a forward over a view of the leading rows leaves in the layer itself: writes go
through, a wider storage does not. -/
def forwardPrefix (rows slots : Nat) (current : Nat → Nat → α) (lengths validSlots : List Nat)
    (maxTotalSlots : Nat) (layer : DraftLayer α) : DraftLayer α :=
  if layer.width < maxTotalSlots then layer
  else layer.appendRagged rows slots current lengths validSlots

/-- What a forward leaves in a layer: over all rows it gets the layer itself, otherwise a view. -/
def forward (whole : Bool) (rows slots : Nat) (current : Nat → Nat → α)
    (lengths validSlots : List Nat) (maxTotalSlots : Nat) (layer : DraftLayer α) : DraftLayer α :=
  match whole with
  | true => layer.forwardBatchRagged rows slots current lengths validSlots maxTotalSlots
  | false => layer.forwardPrefix rows slots current lengths validSlots maxTotalSlots

end DraftLayer

/-- The slots a ragged forward computes, by row and slot index, from the hidden row and the
token at each row and column. -/
def raggedSlots (K : Nat) (hiddenBatch : Nat → Nat → H) (tokenBatch : Nat → Nat → Nat)
    (startPositions : List Nat) (row index : Nat) : CrossSlot H where
  hidden := hiddenBatch row (index / K)
  token := tokenBatch row (index / K)
  slot := index % K
  position := (startPositions.getD row 0 : Int) + 1 + (index / K : Nat) + (index % K : Nat)

/-- Rows copied into a zeroed batch as far as they are valid. -/
def paddedRows {β : Type} (zero : β) (rows : List (List β)) (validLengths : List Nat)
    (row column : Nat) : β :=
  if column < validLengths.getD row 0 then (rows.getD row []).getD column zero else zero

/-- The capacity every layer was declared with at least. -/
def cacheCapacity (layers : List (DraftLayer α)) : Nat :=
  (layers.map DraftLayer.maxCacheLen).min?.getD 0

/-- Rows with a valid position. -/
def activeCount (validLengths : List Nat) : Nat := validLengths.countP (0 < ·)

/-- Slots of the fullest active row after a forward. -/
def maxTotalSlots (K : Nat) (lengthsHost validLengths : List Nat) : Nat :=
  maximum (List.zipWith (fun count valid => count + valid * K)
    (lengthsHost.take (activeCount validLengths)) (validLengths.take (activeCount validLengths)))

/-- Texts by which the two ragged forwards differ. -/
structure RaggedTexts where
  unmatched : String
  empty : String
  scattered : String

/-- What both ragged forwards check. -/
def checkRagged (texts : RaggedTexts) (K : Nat) (cache : DraftBatchCache α) (matching : Bool)
    (validLengths : List Nat) : Except String Unit :=
  if ¬matching then .error texts.unmatched
  else if validLengths = [] then .error "max() arg is an empty sequence"
  else if maximum validLengths = 0 then .error texts.empty
  else if (validLengths.take (activeCount validLengths)).any (· = 0) ∨
      (validLengths.drop (activeCount validLengths)).any (0 < ·) then
    .error texts.scattered
  else if cache.layers = [] then .error "min() arg is an empty sequence"
  else if cacheCapacity cache.layers < maxTotalSlots K cache.lengthsHost validLengths then
    .error "draft cache prefix views cannot resize their owner storage"
  else .ok ()

/-- What both ragged forwards do to the cache. -/
def raggedForward (texts : RaggedTexts) (K : Nat) (cache : DraftBatchCache (CrossSlot H))
    (matching : Bool) (hiddenBatch : Nat → Nat → H) (tokenBatch : Nat → Nat → Nat)
    (startPositions validLengths : List Nat) : Except String (DraftBatchCache (CrossSlot H)) := do
  checkRagged texts K cache matching validLengths
  let active := activeCount validLengths
  let views ← cache.prefixLayers active
  let whole := decide (active = cache.activeBatchSize)
  let layers := views.map (fun view => view.1.forward whole active (maximum validLengths * K)
    (raggedSlots K hiddenBatch tokenBatch startPositions) view.2
    ((validLengths.take active).map (· * K)) (maxTotalSlots K cache.lengthsHost validLengths))
  DraftBatchCache.advance validLengths K { cache with layers := layers }

/-- `_run_ragged_draft_forward`. The rows are padded to the widest, and each row's cache grows by
its own valid positions. The texts are those of the three checks. -/
def runRaggedDraftForward [Inhabited H] (K : Nat) (cache : DraftBatchCache (CrossSlot H))
    (hiddenRows : List (List H)) (tokenRows : List (List Nat))
    (startPositions validLengths : List Nat) : Except String (DraftBatchCache (CrossSlot H)) :=
  raggedForward
    { unmatched := "ragged draft inputs must match active cache rows"
      empty := "ragged draft forward requires at least one valid position"
      scattered := "zero-length ragged draft rows must form a contiguous suffix" }
    K cache
    (decide (tokenRows.length = hiddenRows.length ∧ startPositions.length = hiddenRows.length ∧
      validLengths.length = hiddenRows.length ∧ cache.activeBatchSize = hiddenRows.length))
    (paddedRows default hiddenRows validLengths) (paddedRows 0 tokenRows validLengths)
    startPositions validLengths

/-- `_run_initial_ragged_draft_forward`: the hidden rows are gathered from each prompt's, the
last of them repeated. -/
def runInitialRaggedDraftForward [Inhabited H] (K : Nat) (cache : DraftBatchCache (CrossSlot H))
    (prompts : List (List H)) (tokenRows : List (List Nat))
    (startPositions validLengths : List Nat) : Except String (DraftBatchCache (CrossSlot H)) :=
  raggedForward
    { unmatched := "initial ragged draft inputs must match active cache rows"
      empty := "initial ragged draft forward requires valid positions"
      scattered := "zero-length initial draft rows must form a contiguous suffix" }
    K cache
    (decide (prompts.length = tokenRows.length ∧ startPositions.length = tokenRows.length ∧
      validLengths.length = tokenRows.length ∧ cache.activeBatchSize = tokenRows.length))
    (fun row column => (prompts.getD row []).getD
      (min (startPositions.getD row 0 + column) ((prompts.getD row []).length - 1)) default)
    (paddedRows 0 tokenRows validLengths) startPositions validLengths

/-- What a request brings to the next draft: its position and the chain it accepted. -/
structure DraftRequest (H : Type) where
  draftPosition : Nat
  chain : AcceptedChain H

namespace DraftRequest

/-- Hidden rows fed for a request. -/
def hiddenRow (request : DraftRequest H) : List H :=
  if request.chain.acceptLength = 0 then [request.chain.lastHidden]
  else request.chain.hidden ++ [request.chain.lastHidden]

/-- Tokens fed for a request. -/
def tokenRow (request : DraftRequest H) : List Nat :=
  if request.chain.acceptLength = 0 then [request.chain.lastToken]
  else if request.chain.acceptLength = 1 then [request.chain.lastToken, request.chain.lastToken]
  else request.chain.tokens.drop 1 ++ [request.chain.lastToken, request.chain.lastToken]

/-- Position id of the first position fed. -/
def startPosition (request : DraftRequest H) : Nat :=
  if request.chain.acceptLength = 0 then request.draftPosition else request.draftPosition + 1

/-- Positions fed. -/
def validLength (request : DraftRequest H) : Nat :=
  if request.chain.acceptLength = 0 then 1 else request.chain.acceptLength + 1

/-- The draft position afterwards. -/
def nextPosition (request : DraftRequest H) : Nat :=
  if 0 < request.chain.acceptLength then request.startPosition + request.validLength
  else request.draftPosition

/-- Where block 2 is seeded. -/
def treePosition (request : DraftRequest H) : Int :=
  if request.chain.acceptLength = 0 then request.nextPosition else (request.nextPosition : Int) - 1

end DraftRequest

/-- Rows that accepted nothing. -/
def rejectedRows (requests : List (DraftRequest H)) : List Nat :=
  (List.range requests.length).filter (fun row =>
    (requests[row]?.map (fun request => request.chain.acceptLength)) = some 0)

/-- The cache without the failed blocks. -/
def rollbackRejected (K : Nat) (cache : DraftBatchCache (CrossSlot H))
    (requests : List (DraftRequest H)) : Except String (DraftBatchCache (CrossSlot H)) :=
  if rejectedRows requests = [] then .ok cache else cache.rollbackRows (rejectedRows requests) K

/-- The cache, the positions and the seeds after `_build_next_drafts_batched`. -/
def buildNextDraftsBatched [Inhabited H] (K : Nat) (cache : DraftBatchCache (CrossSlot H))
    (requests : List (DraftRequest H)) :
    Except String (DraftBatchCache (CrossSlot H) × List Nat × List Int) := do
  let cache ← rollbackRejected K cache requests
  let cache ← runRaggedDraftForward K cache (requests.map DraftRequest.hiddenRow)
    (requests.map DraftRequest.tokenRow) (requests.map DraftRequest.startPosition)
    (requests.map DraftRequest.validLength)
  return (cache, requests.map DraftRequest.nextPosition, requests.map DraftRequest.treePosition)

end SpecBlock.Draft
