import SpecBlock.Batch.Trees
import SpecBlock.Foundation.Rows

/-!
# The dense target cache

`_DenseTargetCache` keeps one storage per layer with a row per active request.
Committed entries of a row occupy its first columns. A round stages the packed
tree behind the longest committed prefix plus a reserved window, zeroes what
lies between each row's own prefix and the staged tree, and then copies each
accepted path to the end of its row's prefix. Rows are gathered when requests
finish.

Storage is shared between the layers or owned by each of them; the first clears
the gap of all layers at once, the second clears it with the layer's own write.
A storage cell stands for a key and its value, which every operation treats
alike.
-/

namespace SpecBlock.Batch

variable {E : Type} [Zero E]

/-- Cells by batch row and column. -/
abbrev Storage (E : Type) := Nat → Nat → E

/-- Write window and gap a layer was last prepared for. -/
structure Plan where
  attentionWidth : Nat
  committedWidth : Nat
  writeStart : Nat
  gapStart : Nat
  gapMask : Option (List (List Bool))
  gapCleared : Bool

/-- `_DenseTargetCacheLayer`: a layer is allocated by its first write. -/
structure Layer (E : Type) where
  maxCacheLen : Nat
  maxBatchSize : Nat
  storage : Option (Storage E)
  plan : Plan

/-- `_DenseTargetCache`: the layers and the widths that all of them share. The committed columns
come first, then a reserve for the next commit, and the staged tree behind it. -/
structure DenseTargetCache (E : Type) where
  sharedStorage : Bool
  maxBatchCapacity : Nat
  promptWidth : Nat
  committedCapacity : Nat
  maxTreeWidth : Nat
  capacity : Nat
  activeBatchSize : Nat
  attentionWidth : Nat
  committedWidth : Nat
  treeStart : Nat
  treeWidth : Nat
  commitReserve : Nat
  layers : List (Layer E)

/-- Zero the masked cells of a column range, for the leading batch rows. -/
def clearGap (rows start stop : Nat) (mask : Option (List (List Bool))) (storage : Storage E) :
    Storage E := fun row column =>
  if row < rows ∧ start ≤ column ∧ column < stop ∧
      mask.elim true (fun mask => (mask.getD row []).getD (column - start) false) = true then 0
  else storage row column

/-- The gap a layer still has to clear before it writes. -/
def Plan.clear (plan : Plan) (batch : Nat) (storage : Storage E) : Storage E :=
  if plan.gapCleared then storage
  else match plan.gapMask with
    | none =>
      if plan.committedWidth < plan.writeStart then
        clearGap batch plan.committedWidth plan.writeStart none storage
      else storage
    | some mask => clearGap batch plan.gapStart plan.writeStart (some mask) storage

/-- Write one entry per query token behind a start column. -/
def writeStates (rows start count : Nat) (states : Storage E) (storage : Storage E) : Storage E :=
  fun row column =>
    if row < rows ∧ start ≤ column ∧ column < start + count then states row (column - start)
    else storage row column

/-- Fresh storage that keeps the leading columns. -/
def keepPrefix (preserveWidth : Nat) (storage : Storage E) : Storage E := fun row column =>
  if column < preserveWidth then storage row column else 0

namespace Layer

/-- Allocate zeroed storage at the first write. -/
def lazyInitialization (batch : Nat) (layer : Layer E) : Layer E :=
  match layer.storage with
  | some _ => layer
  | none => { layer with storage := some (fun _ _ => 0), maxBatchSize := batch }

/-- `update` of an allocated layer: clear the gap once, then write the states. -/
def update (batch queryLen cachePositions : Nat) (states : Storage E) (layer : Layer E) :
    Except String (Layer E) :=
  let plan := layer.plan
  let writeEnd := plan.writeStart + queryLen
  if layer.maxBatchSize < batch then .error "cache batch exceeds the allocated rows"
  else if cachePositions ≠ queryLen then
    .error "cache_position length must match target query length"
  else if layer.maxCacheLen < writeEnd ∨ plan.attentionWidth < writeEnd then
    .error "target KV write exceeds the prepared cache range"
  else if !plan.gapCleared && plan.gapMask.any (fun mask => mask.length != batch) then
    .error "target KV gap mask does not match active rows"
  else
    .ok { layer with
      storage := layer.storage.map (fun storage =>
        writeStates batch plan.writeStart queryLen states (plan.clear batch storage)) }

/-- `resize` of a layer that owns its storage. It only grows, and keeps the columns in front of a width. -/
def resize (maxCacheLen preserveWidth : Nat) (layer : Layer E) : Layer E :=
  if maxCacheLen ≤ layer.maxCacheLen then layer
  else { layer with
    maxCacheLen := maxCacheLen
    storage := layer.storage.map (keepPrefix preserveWidth) }

/-- A layer's share of resizing the shared storage. -/
def reallocate (maxCacheLen preserveWidth : Nat) (layer : Layer E) : Layer E :=
  { layer with
    maxCacheLen := maxCacheLen
    storage := layer.storage.map (keepPrefix preserveWidth) }

/-- The entry of an allocated cell. -/
def entry (layer : Layer E) (row column : Nat) : Option E :=
  layer.storage.map (fun storage => storage row column)

end Layer

/-- One copy within a batch row, from a source to a destination column. -/
structure Copy where
  row : Nat
  destination : Nat
  source : Nat

/-- `copy_selected_kv_`: every copy inside the storage is performed. -/
def copySelected (batch sequenceLength : Nat) (copies : List Copy) (storage : Storage E) :
    Storage E :=
  copies.foldl (fun storage copy =>
    if copy.row < batch ∧ copy.source < sequenceLength ∧ copy.destination < sequenceLength then
      fun row column =>
        if row = copy.row ∧ column = copy.destination then storage copy.row copy.source
        else storage row column
    else storage) storage

/-- A surviving request's accepted path: row, logical prefix and tree indices. -/
structure PendingCommit where
  row : Nat
  logicalPrefixLen : Nat
  selectedTreeIndices : List Int

namespace DenseTargetCache

/-- `__init__`. A batch can commit its prompts and all new tokens, and stage two trees behind them. -/
def new (sharedStorage : Bool) (numLayers maxBatchSize promptWidth maxNewTokens maxTreeWidth : Nat) :
    DenseTargetCache E :=
  let committedCapacity := promptWidth + maxNewTokens
  let capacity := committedCapacity + 2 * maxTreeWidth
  { sharedStorage := sharedStorage
    maxBatchCapacity := maxBatchSize
    promptWidth := promptWidth
    committedCapacity := committedCapacity
    maxTreeWidth := maxTreeWidth
    capacity := capacity
    activeBatchSize := maxBatchSize
    attentionWidth := promptWidth
    committedWidth := promptWidth
    treeStart := promptWidth
    treeWidth := 0
    commitReserve := 0
    layers := List.replicate numLayers
      { maxCacheLen := capacity
        maxBatchSize := 0
        storage := none
        plan := ⟨promptWidth, promptWidth, 0, 0, none, false⟩ } }

/-- `_sync_layer_state`: all layers write at the same column and hide the same gap. -/
def syncLayerState (writeStart gapStart : Nat) (gapMask : Option (List (List Bool)))
    (cache : DenseTargetCache E) : DenseTargetCache E :=
  { cache with
    layers := cache.layers.map (fun layer => { layer with
      plan := ⟨cache.attentionWidth, cache.committedWidth, writeStart, gapStart, gapMask, false⟩ }) }

/-- `prepare_prefill`: all rows write their prompts from the first column on, and nothing is hidden. -/
def preparePrefill (cache : DenseTargetCache E) : DenseTargetCache E :=
  syncLayerState 0 0 none
    { cache with
      activeBatchSize := cache.maxBatchCapacity
      attentionWidth := cache.promptWidth
      committedWidth := cache.promptWidth
      treeStart := cache.promptWidth
      treeWidth := 0
      commitReserve := 0 }

/-- Grow every layer when a staged tree exceeds the capacity. -/
def grow (capacity preserveWidth : Nat) (cache : DenseTargetCache E) : DenseTargetCache E :=
  { cache with
    capacity := capacity
    layers := cache.layers.map (fun layer =>
      if cache.sharedStorage then layer.reallocate capacity preserveWidth
      else layer.resize capacity preserveWidth) }

/-- Clear the gap of the shared storage, once for all layers. -/
def clearShared (gapStart : Nat) (gapMask : Option (List (List Bool)))
    (cache : DenseTargetCache E) : DenseTargetCache E :=
  if cache.sharedStorage ∧ cache.layers.any (fun layer => layer.storage.isSome) = true ∧
      gapStart < cache.treeStart then
    { cache with
      layers := cache.layers.map (fun layer => { layer with
        storage := layer.storage.map
          (clearGap cache.activeBatchSize gapStart cache.treeStart gapMask)
        plan := { layer.plan with gapCleared := true } }) }
  else cache

/-- Columns of the ragged gap each row has not committed. -/
def raggedMask (gapStart treeStart : Nat) (prefixLengths : List Nat) : List (List Bool) :=
  prefixLengths.map (fun length =>
    (List.range (treeStart - gapStart)).map (fun offset => decide (length ≤ gapStart + offset)))

/-- First column of the gap: the shortest prefix, or the common one. -/
def gapStart (prefixLengths : List Nat) : Nat := prefixLengths.min?.getD 0

/-- The gap mask: none when all prefixes are equal. -/
def gapMask (prefixLengths : List Nat) (treeStart : Nat) : Option (List (List Bool)) :=
  if gapStart prefixLengths ≠ maximum prefixLengths then
    some (raggedMask (gapStart prefixLengths) treeStart prefixLengths)
  else none

/-- `prepare_tree` after its checks: grow, place the tree, and clear the gap. -/
def placeTree (treeWidth : Nat) (prefixLengths : List Nat) (commitReserve : Nat)
    (cache : DenseTargetCache E) : DenseTargetCache E :=
  let committedWidth := maximum prefixLengths
  let treeStart := committedWidth + commitReserve
  let attentionWidth := treeStart + treeWidth
  let maxTreeWidth := max cache.maxTreeWidth treeWidth
  let grown :=
    if cache.capacity < attentionWidth then
      cache.grow (max attentionWidth (cache.committedCapacity + 2 * maxTreeWidth)) committedWidth
    else cache
  clearShared (gapStart prefixLengths) (gapMask prefixLengths treeStart)
    (syncLayerState treeStart (gapStart prefixLengths) (gapMask prefixLengths treeStart)
      { grown with
        maxTreeWidth := maxTreeWidth
        attentionWidth := attentionWidth
        committedWidth := committedWidth
        treeStart := treeStart
        treeWidth := treeWidth
        commitReserve := commitReserve })

/-- `prepare_tree`. Each row of the batch hands over the length of its committed prefix. The checks
come in the order of the source, and an empty batch fails only at the maximum of the lengths. -/
def prepareTree (treeWidth : Nat) (prefixLengths : List Nat) (commitReserve : Nat)
    (cache : DenseTargetCache E) : Except String (DenseTargetCache E) :=
  if prefixLengths.length ≠ cache.activeBatchSize then
    .error "prefix lengths must match active cache rows"
  else if treeWidth = 0 then .error "target tree width must be positive"
  else if treeWidth < commitReserve then
    .error "target commit reserve must fit inside the tree"
  else if prefixLengths.any (fun length => cache.committedCapacity < length) then
    .error "committed target KV width is out of range"
  else if prefixLengths = [] then .error "max() arg is an empty sequence"
  else .ok (placeTree treeWidth prefixLengths commitReserve cache)

/-- A model layer's `update`. With shared storage the first one allocates all layers. -/
def updateLayer (index batch queryLen cachePositions : Nat) (states : Storage E)
    (cache : DenseTargetCache E) : Except String (DenseTargetCache E) :=
  match cache.layers[index]? with
  | none => .error "list index out of range"
  | some layer => do
    let layers := if cache.sharedStorage then cache.layers.map (Layer.lazyInitialization batch)
      else cache.layers
    let updated ← (layer.lazyInitialization batch).update batch queryLen cachePositions states
    return { cache with layers := layers.set index updated }

/-- The checks `commit_paths` makes for one request. -/
def checkCommit (cache : DenseTargetCache E) (pending : PendingCommit) : Except String Unit :=
  let count := pending.selectedTreeIndices.length
  let committedEnd := pending.logicalPrefixLen + count
  if cache.activeBatchSize ≤ pending.row then .error "accepted target KV row is out of range"
  else if cache.committedWidth < pending.logicalPrefixLen then
    .error "accepted target KV prefix is out of range"
  else if cache.commitReserve < count then
    .error "accepted target KV exceeds the reserved path width"
  else if cache.committedCapacity < committedEnd then
    .error "accepted target KV exceeds committed cache capacity"
  else if cache.treeStart < committedEnd then
    .error "accepted target KV overlaps staged tree storage"
  else .ok ()

/-- The copies one request's accepted path asks for. -/
def pathCopies (treeStart : Nat) (pending : PendingCommit) : List Copy :=
  pending.selectedTreeIndices.mapIdx (fun offset (index : Int) =>
    ⟨pending.row, pending.logicalPrefixLen + offset, treeStart + index.toNat⟩)

/-- `commit_paths`, with the committed counts it returns. -/
def commitPaths (requests : List PendingCommit) (cache : DenseTargetCache E) :
    Except String (DenseTargetCache E × List Nat) :=
  if requests = [] then .ok (cache, [])
  else do
    let _ ← requests.mapM cache.checkCommit
    if requests.any (fun pending => pending.selectedTreeIndices.any (fun index =>
        index < 0 ∨ (cache.treeWidth : Int) ≤ index)) then
      .error "accepted target KV source is out of range"
    else
      let copies := requests.flatMap (pathCopies cache.treeStart)
      .ok ({ cache with
          committedWidth := maximum (cache.committedWidth :: requests.map (fun pending =>
            pending.logicalPrefixLen + pending.selectedTreeIndices.length))
          layers := cache.layers.map (fun layer => { layer with
            storage := layer.storage.map
              (copySelected layer.maxBatchSize layer.maxCacheLen copies) }) },
        requests.map (fun pending => pending.selectedTreeIndices.length))

/-- `compact_rows`. A prefix of the rows stays in place. -/
def compactRows (rowIndices : List Nat) (cache : DenseTargetCache E) : DenseTargetCache E :=
  if rowIndices = List.range rowIndices.length then
    { cache with activeBatchSize := rowIndices.length }
  else
    { cache with
      activeBatchSize := rowIndices.length
      layers := cache.layers.map (fun layer => { layer with
        storage := layer.storage.map (fun storage row column =>
          if row < rowIndices.length ∧ column < cache.committedWidth then
            storage (rowIndices.getD row 0) column
          else storage row column) }) }

end DenseTargetCache

theorem clearGap_frame (rows start stop : Nat) (mask : Option (List (List Bool)))
    (storage : Storage E) (row column : Nat)
    (kept : start ≤ column → column < stop →
      mask.elim true (fun mask => (mask.getD row []).getD (column - start) false) = false) :
    clearGap rows start stop mask storage row column = storage row column := by
  rw [clearGap, if_neg]
  rintro ⟨-, lower, upper, masked⟩
  rw [kept lower upper] at masked
  exact absurd masked (by decide)

omit [Zero E] in
theorem writeStates_frame (rows start count : Nat) (states storage : Storage E)
    (row column : Nat) (before : column < start) :
    writeStates rows start count states storage row column = storage row column := by
  rw [writeStates, if_neg]
  omega

omit [Zero E] in
theorem writeStates_written (rows start count : Nat) (states storage : Storage E)
    (row token : Nat) (active : row < rows) (written : token < count) :
    writeStates rows start count states storage row (start + token) = states row token := by
  rw [writeStates, if_pos (by omega), Nat.add_sub_cancel_left]

omit [Zero E] in
theorem copySelected_frame (batch sequenceLength : Nat) (copies : List Copy)
    (storage : Storage E) (row column : Nat)
    (untouched : ∀ copy ∈ copies, copy.row = row → copy.destination ≠ column) :
    copySelected batch sequenceLength copies storage row column = storage row column := by
  induction copies generalizing storage with
  | nil => rfl
  | cons copy rest ih =>
    have here := untouched copy List.mem_cons_self
    rw [copySelected, List.foldl_cons, ← copySelected, ih _
      (fun other member => untouched other (List.mem_cons_of_mem _ member))]
    split
    · refine if_neg ?_
      rintro ⟨rfl, rfl⟩
      exact here rfl rfl
    · rfl

omit [Zero E] in
/-- Copies between separate columns, with one source per destination, deliver
what their sources held before. -/
theorem copySelected_copied (batch sequenceLength limit : Nat) (copies : List Copy)
    (storage : Storage E)
    (separate : ∀ copy ∈ copies, copy.destination < limit ∧ limit ≤ copy.source)
    (inside : ∀ copy ∈ copies, copy.row < batch ∧ copy.source < sequenceLength)
    (functional : ∀ left ∈ copies, ∀ right ∈ copies, left.row = right.row →
      left.destination = right.destination → left.source = right.source)
    (copy : Copy) (member : copy ∈ copies) :
    copySelected batch sequenceLength copies storage copy.row copy.destination =
      storage copy.row copy.source := by
  induction copies generalizing storage copy with
  | nil => simp at member
  | cons first rest ih =>
    obtain ⟨below, above⟩ := separate first List.mem_cons_self
    obtain ⟨rowInside, sourceInside⟩ := inside first List.mem_cons_self
    have later := ih (fun row column =>
        if row = first.row ∧ column = first.destination then storage first.row first.source
        else storage row column)
      (fun other kept => separate other (List.mem_cons_of_mem _ kept))
      (fun other kept => inside other (List.mem_cons_of_mem _ kept))
      (fun left leftKept right rightKept => functional left (List.mem_cons_of_mem _ leftKept)
        right (List.mem_cons_of_mem _ rightKept))
    rw [copySelected, List.foldl_cons, ← copySelected,
      if_pos ⟨rowInside, sourceInside, by omega⟩]
    have sourceBound := (separate copy member).2
    by_cases again : ∃ other ∈ rest, other.row = copy.row ∧ other.destination = copy.destination
    · -- A later copy of the same cell has the same source.
      obtain ⟨other, kept, sameRow, sameDestination⟩ := again
      have sameSource := functional other (List.mem_cons_of_mem _ kept) copy member sameRow
        sameDestination
      have delivered := later other kept
      rw [sameRow, sameDestination, sameSource] at delivered
      rw [delivered, if_neg (by omega)]
    · have untouched : ∀ other ∈ rest, other.row = copy.row →
          other.destination ≠ copy.destination :=
        fun other kept sameRow same => again ⟨other, kept, sameRow, same⟩
      rcases List.mem_cons.mp member with rfl | kept
      · rw [copySelected_frame _ _ rest _ _ _ untouched, if_pos ⟨rfl, rfl⟩]
      · exact absurd rfl (untouched copy kept rfl)

end SpecBlock.Batch
