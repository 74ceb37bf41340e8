import SpecBlock.Draft.InitialDrafts
import SpecBlock.Draft.Prefill
import SpecBlock.Draft.TrainingMasks

/-!
# What the first drafts return

A request is a row of the padded prefill. The condition of a position is projected from the
target's hidden row there, by a kernel or, where the kernel is wrong, by a gather; both stop at
the prompt's last row. A forward over a chunk returns, for every row with positions in it, what
the network computes at the slots of the row's last valid position. The rows whose last position
is in the chunk keep it.

What the network computes at a slot is a function of what the slot sees in each layer. A slot
sees, of its row, the live cells and those of the chunk up to its own; a padded slot sees the
first cell only.
-/

namespace SpecBlock.Draft

open Serving Batch

variable {S H O : Type}

/-- An unfinished request: its row in the padded prefill, its prompt and its first token. -/
structure DraftEntry where
  sourceIdx : Nat
  promptIds : List Nat
  currentToken : Nat
  nonempty : promptIds ≠ []

namespace DraftEntry

/-- `prompt_len`. -/
def promptLen (entry : DraftEntry) : Nat := entry.promptIds.length

/-- Positions fed. -/
def total (entry : DraftEntry) : Nat := entry.promptLen + 1

/-- Chunks needed. -/
def chunkCount (entry : DraftEntry) : Nat := (entry.promptLen + 64) / 64

/-- Tokens fed. -/
def tokenRow (entry : DraftEntry) : List Nat :=
  (entry.promptIds.drop 1 ++ [entry.currentToken]) ++ [entry.currentToken]

/-- The request alone, with the conditions of its prompt. -/
def request (project : S → H) (hiddenSources : Nat → Nat → S) (entry : DraftEntry) :
    InitialRequest H where
  promptIds := entry.promptIds
  hidden := (List.range entry.promptLen).map (fun position =>
    project (hiddenSources entry.sourceIdx position))
  currentToken := entry.currentToken
  nonempty := entry.nonempty
  paired := by simp [promptLen]

end DraftEntry

/-- Requests that need more chunks come first, in the order they were where they need as many. -/
def sortInitialEntries (entries : List DraftEntry) : List DraftEntry :=
  let initialChunkCounts := entries.map DraftEntry.chunkCount
  if (List.zip initialChunkCounts (initialChunkCounts.drop 1)).any (fun pair => pair.1 < pair.2) then
    entries.mergeSort (fun first second => second.chunkCount ≤ first.chunkCount)
  else entries

/-- The persistent kernel: it gets the hidden sources, their rows and lengths, the first
position of each row, its number of positions and the width of the result. -/
abbrev ConditionKernel (S H : Type) :=
  (Nat → Nat → S) → List Nat → List Nat → List Nat → List Nat → Nat → Nat → Nat → H

/-- At valid positions the kernel projects the source row there, or else the last one. -/
def ConditionKernel.Projects (kernel : ConditionKernel S H) (project : S → H) : Prop :=
  ∀ hiddenSources sourceRows sourceLengths starts lengths maxPositions row column,
    row < starts.length → column < lengths.getD row 0 →
    kernel hiddenSources sourceRows sourceLengths starts lengths maxPositions row column =
      project (hiddenSources (sourceRows.getD row 0)
        (min (starts.getD row 0 + column) (sourceLengths.getD row 0 - 1)))

/-- The draft as the chunks use it: its slots and layers, the projection of a condition with the
kernel for it, if that can be used, and what is computed at a slot from what it sees. -/
structure DraftNetwork (S H O : Type) where
  K : Nat
  numLayers : Nat
  project : S → H
  kernel : Option (ConditionKernel S H)
  compute : List (List (Option (CrossSlot H))) → O

/-- `_project_initial_ragged_condition`. Without the kernel, rows that end before the chunk does
repeat their last position. -/
def projectInitialRaggedCondition (network : DraftNetwork S H O) (hiddenSources : Nat → Nat → S)
    (sourceRows sourceLengths starts lengths : List Nat) (maxPositions : Nat) : Nat → Nat → H :=
  let activeCount := starts.length
  match network.kernel with
  | some kernel => kernel hiddenSources (sourceRows.take activeCount) (sourceLengths.take activeCount)
      starts lengths maxPositions
  | none => fun row column =>
      let position := min (starts.getD row 0 + column) ((sourceLengths.take activeCount).getD row 0 - 1)
      network.project (hiddenSources ((sourceRows.take activeCount).getD row 0) position)

/-- `assert_ragged_kv_metadata`. A row may grow neither past the current block nor past the cache. -/
def assertRaggedKvMetadata (lengths validSlots : List Nat) (currentWidth sequenceCapacity : Nat) :
    Except String Unit :=
  if (List.zip lengths validSlots).all (fun row =>
      row.2 ≤ currentWidth ∧ row.1 + row.2 ≤ sequenceCapacity) then .ok ()
  else .error "ragged draft KV metadata is outside current/cache bounds"

/-- The mask of `_ragged_tree_attn_fwd_kernel`. -/
def raggedTreeMask (K crossCount validSlots query index : Nat) : Bool :=
  let visible := decide (index < crossCount) || crossPositionCausalMask K query (index - crossCount)
  if query < validSlots then visible && decide (index < crossCount + validSlots)
  else decide (index = 0)

/-- Cells that a query of a row sees in a layer with its lengths, of as many as the fullest row
has. -/
def raggedTreeAttention (K maxTotal validSlots row query : Nat)
    (view : DraftLayer (CrossSlot H) × List Nat) : List (Option (CrossSlot H)) :=
  attended ((List.range maxTotal).map (view.1.memory row maxTotal).cells)
    (raggedTreeMask K (view.2.getD row 0) validSlots query)

/-- `ragged_tree_attention` gets storage that is wide enough. -/
def checkAttention (maxTotal : Nat) (layers : List (DraftLayer (CrossSlot H))) : Except String Unit :=
  if maxTotal = 0 ∨ layers.any (fun layer => layer.width < maxTotal) then
    .error "ragged draft attention width is out of range"
  else .ok ()

/-- What is computed at a row's last valid position. -/
def lastPositionOutputs (network : DraftNetwork S H O)
    (views : List (DraftLayer (CrossSlot H) × List Nat)) (maxTotal valid row : Nat) : List O :=
  let lastPosition := (valid - 1) * network.K
  (List.range network.K).map (fun slot => network.compute (views.map
    (raggedTreeAttention network.K maxTotal (valid * network.K) row (lastPosition + slot))))

/-- `_run_initial_ragged_draft_forward`: the cache, and the outputs of the active rows. The layers
are read as they are after the writes, with the lengths from before. -/
def runInitialRaggedDraftForwardOutputs (network : DraftNetwork S H O)
    (cache : DraftBatchCache (CrossSlot H)) (hiddenSources : Nat → Nat → S)
    (sourceRows sourceLengths : List Nat) (tokenRows : List (List Nat))
    (startPositions validLengths : List Nat) :
    Except String (DraftBatchCache (CrossSlot H) × List (List O)) := do
  let active := activeCount validLengths
  let maxTotal := maxTotalSlots network.K cache.lengthsHost validLengths
  let following ← raggedForward
    { unmatched := "initial ragged draft inputs must match active cache rows"
      empty := "initial ragged draft forward requires valid positions"
      scattered := "zero-length initial draft rows must form a contiguous suffix" }
    network.K cache
    (decide (sourceRows.length = tokenRows.length ∧ sourceLengths.length = tokenRows.length ∧
      startPositions.length = tokenRows.length ∧ validLengths.length = tokenRows.length ∧
      cache.activeBatchSize = tokenRows.length))
    (projectInitialRaggedCondition network hiddenSources sourceRows sourceLengths
      (startPositions.take active) (validLengths.take active) (maximum validLengths))
    (paddedRows 0 tokenRows validLengths) startPositions validLengths
  let lengths := (← cache.prefixLayers active).map Prod.snd
  assertRaggedKvMetadata (lengths.headD []) ((validLengths.take active).map (· * network.K))
    (maximum validLengths * network.K) maxTotal
  checkAttention maxTotal following.layers
  return (following, (List.range active).map (fun row =>
    lastPositionOutputs network (List.zip following.layers lengths) maxTotal
      (validLengths.getD row 0) row))

/-- The loop of the first drafts: the cache and the final outputs, empty until they are copied. -/
structure InitialDrafting (H O : Type) where
  cache : DraftBatchCache (CrossSlot H)
  finalOutputs : List (Option (List O))

/-- `index_copy_` of the rows whose last position is in the chunk. -/
def copyFinishing (finishing : List Nat) (outputs : List (List O))
    (finalOutputs : List (Option (List O))) : List (Option (List O)) :=
  finishing.foldl (fun finals row => finals.set row outputs[row]?) finalOutputs

/-- One chunk of the loop. -/
def initialChunk (network : DraftNetwork S H O) (hiddenSources : Nat → Nat → S)
    (entries : List DraftEntry) (state : InitialDrafting H O) (chunk : Nat) :
    Except String (InitialDrafting H O) := do
  let start := chunk * 64
  let totals := entries.map DraftEntry.total
  let (cache, outputs) ← runInitialRaggedDraftForwardOutputs network state.cache hiddenSources
    (entries.map DraftEntry.sourceIdx) (entries.map DraftEntry.promptLen)
    (entries.map (fun entry => (entry.tokenRow.drop start).take 64))
    (entries.map (fun _ => start)) (totals.map (chunkValid start))
  checkFinishing start totals
  return {
    cache := cache
    finalOutputs := copyFinishing (finishingRows start totals) outputs state.finalOutputs }

/-- Before the first chunk. -/
def initialDrafting (network : DraftNetwork S H O) (entries : List DraftEntry)
    (maxNewTokens : Nat) : InitialDrafting H O where
  cache := DraftBatchCache.new network.numLayers entries.length
    ((maximum (entries.map DraftEntry.promptLen) + maxNewTokens) * network.K)
  finalOutputs := entries.map (fun _ => none)

/-- `_build_initial_drafts_batched` up to the trees: the cache, the outputs they are built from,
and the draft positions. -/
def buildInitialDraftsBatched (network : DraftNetwork S H O) (hiddenSources : Nat → Nat → S)
    (entries : List DraftEntry) (maxNewTokens : Nat) :
    Except String (InitialDrafting H O × List Nat) := do
  let totals := entries.map DraftEntry.total
  let final ← (List.range ((maximum totals + 63) / 64)).foldlM
    (initialChunk network hiddenSources entries) (initialDrafting network entries maxNewTokens)
  return (final, totals)

/-- What `prefill_and_draft` returns of the drafted position: the slots of the last position of
its last forward, computed from the live cells before it and the forward's own under the mask. -/
def prefillOutputs (network : DraftNetwork S H O) (hidden : List H) (inputIds : List Nat)
    (draftHidden : H) (draftInputId chunkSize : Nat) : List O :=
  let lastStart := lastChunkStart hidden.length chunkSize
  let filled := (List.range ((lastStart + chunkSize - 1) / chunkSize)).foldl
    (prefillChunk network.K hidden inputIds chunkSize lastStart) LivePrefix.blank
  let updated := (updateCacheAndDraft network.K (hidden.drop lastStart ++ [draftHidden])
    (inputIds.drop lastStart ++ [draftInputId]) lastStart filled).1
  let positions := (hidden.drop lastStart ++ [draftHidden]).length
  (List.range network.K).map (fun slot =>
    let query := positions * network.K - network.K + slot
    let seen := attended ((List.range updated.count).map updated.cells) (fun index =>
      decide (index < filled.count) || crossPositionCausalMask network.K query (index - filled.count))
    network.compute (List.replicate network.numLayers seen))

end SpecBlock.Draft
