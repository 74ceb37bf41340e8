import SpecBlock.Foundation.CausalNetwork
import SpecBlock.Batch.Capacity
import SpecBlock.Batch.Eagle3Sampling

/-!
# The batched EAGLE3 loop

`generate_conversations` prefills all prompts in one right-padded batch and
splits the keys and values into one compact cache per request. A round packs the
caches of the unfinished requests side by side, lays their trees behind the
longest one, and lets the target answer every node at once under an attention
mask, which hides the gap behind a shorter cache, and a tree mask, which shows a
node its ancestors. Each request then takes the leaf path that agrees longest
with the target, copies the columns of that path into a compact cache again, and
commits its tokens until a stop token or a limit.

The target is a causal network: what it computes at a query depends on the token,
the position and the entries the masks leave visible. An entry stands for the
keys and values of all layers. A tensor operation whose shapes or indices do not
fit fails.
-/

namespace SpecBlock.Eagle3

open Batch Causal

variable {Kv : Type}

/-- `_RequestState`: its place in the batch stands for the conversation. -/
structure Request (Kv : Type) where
  conversation : Nat
  promptLen : Nat
  inputIds : List Nat
  targetCache : List Kv
  tree : Tree
  iterations : Nat
  generatedTokens : Nat
  acceptLengthsRaw : List Nat
  finished : Bool

/-- A preallocated cache: rows of one capacity, filled up to the current length. -/
structure KvCache (Kv : Type) where
  data : List (List Kv)
  currentLength : Nat

/-- What the draft builds for a conversation from its input and the next token. -/
abbrev Drafter := Nat → List Nat → Nat → Tree

section target

variable (net : Network Nat Kv)

/-- `_allocate_target_kv`: rows of zeros. -/
def allocateTargetKv (zero : Kv) (batchSize capacity initialLength : Nat) : KvCache Kv :=
  ⟨List.replicate batchSize (List.replicate capacity zero), initialLength⟩

/-- `_prepare_decoder_attention_mask`: a column is seen unless it lies behind the query, the attention mask
hides it, or it is a fresh column and the tree mask hides it. -/
def decoderMask (pastLength : Nat) (attentionMask : List Bool) (treeMask : Option (List (List Bool)))
    (query column : Nat) : Bool :=
  decide (column ≤ pastLength + query) && attentionMask.getD column false &&
    treeMask.elim true (fun mask =>
      decide (column < pastLength) || (mask.getD query []).getD (column - pastLength) false)

/-- One row of the target's forward: the choices, and the row with the fresh columns that `KVCache.cat`
appends at the current length. -/
def forwardRow (visible : Nat → Nat → Bool) (currentLength : Nat) (tokens positions : List Nat)
    (row : List Kv) : Except String (List Nat × List Kv) :=
  let queries := net.stage visible 0 (row.take currentLength) (tokens.zip positions)
  if currentLength + queries.length ≤ row.length then
    .ok (queries.map net.choice, row.take currentLength ++ queries.map net.entry ++
      row.drop (currentLength + queries.length))
  else .error "start + length exceeds dimension size"

/-- The forward on a numbered row of a batch. -/
def forwardEntry (attentionMask : List (List Bool)) (treeMask : Option (List (List (List Bool))))
    (inputIds positionIds : List (List Nat)) (currentLength : Nat) (entry : List Kv × Nat) :
    Except String (List Nat × List Kv) :=
  forwardRow net (decoderMask currentLength (attentionMask.getD entry.2 [])
      (treeMask.map (fun masks => masks.getD entry.2 [])))
    currentLength (inputIds.getD entry.2 []) (positionIds.getD entry.2 []) entry.1

/-- The target's forward on a batch: the choices of all queries and the extended cache. -/
def forward (attentionMask : List (List Bool)) (treeMask : Option (List (List (List Bool))))
    (inputIds positionIds : List (List Nat)) (cache : KvCache Kv) :
    Except String (List (List Nat) × KvCache Kv) := do
  let rows ← cache.data.zipIdx.mapM
    (forwardEntry net attentionMask treeMask inputIds positionIds cache.currentLength)
  .ok (rows.map Prod.fst,
    ⟨rows.map Prod.snd, cache.currentLength + maximum (inputIds.map List.length)⟩)

end target

section packing

/-- A numbered request's row: its cache over the front of an allocated row. -/
def packEntry (packed : KvCache Kv) (entry : Request Kv × Nat) : Except String (List Kv) :=
  if entry.1.targetCache.length = entry.1.inputIds.length then
    .ok (entry.1.targetCache ++ (packed.data.getD entry.2 []).drop entry.1.inputIds.length)
  else .error "the size of the cache must match the size of the input"

/-- `_pack_target_caches`: every request's cache at the front of a row that is as wide as the longest input
and the widest tree. -/
def packTargetCaches (zero : Kv) (states : List (Request Kv)) (treeWidth : Nat) :
    Except String (KvCache Kv) := do
  let prefixWidth := maximum (states.map (fun state => state.inputIds.length))
  let packed := allocateTargetKv zero states.length (prefixWidth + treeWidth) prefixWidth
  let data ← states.zipIdx.mapM (packEntry packed)
  .ok { packed with data := data }

/-- A tree's mask in the batch: its own, and padded queries that see themselves. -/
def packTreeMask (treeWidth : Nat) (tree : Tree) : List (List Bool) :=
  (List.range treeWidth).map (fun query => (List.range treeWidth).map (fun column =>
    if query < tree.width then
      decide (column < tree.width) && (tree.mask.getD query []).getD column false
    else query == column))

/-- The tree masks of `_pack_trees`. -/
def packTreeMasks (trees : List Tree) (treeWidth : Nat) : List (List (List Bool)) :=
  trees.map (packTreeMask treeWidth)

/-- A row of the attention mask: the request's own input and the columns of the trees. -/
def attentionRow (prefixWidth treeWidth length : Nat) : List Bool :=
  (List.range (prefixWidth + treeWidth)).map (fun column =>
    decide (column < length) || decide (prefixWidth ≤ column))

/-- `_tree_attention_mask`. Every request sees its own input and all columns of the trees; which of
these a node sees is left to the tree mask. -/
def treeAttentionMask (prefixLengths : List Nat) (prefixWidth treeWidth : Nat) : List (List Bool) :=
  prefixLengths.map (attentionRow prefixWidth treeWidth)

end packing

section acceptance

/-- `matches`: each token of a path after its root against the choice at the node before it. -/
def pathMatches (row : PathRow) (targetPred : List Nat) (leaf : Nat) : List Bool :=
  (List.range ((row.retrieve.getD leaf []).length - 1)).map (fun position =>
    row.pathToken leaf (position + 1) ==
        ((targetPred.getD (row.safeRetrieve leaf position) 0 : Nat) : Int) &&
      row.retrieveValid leaf (position + 1) && row.retrieveValid leaf position)

/-- `path_lengths`: the leading matches of the genuine leaves, and `-1` for the others. -/
def pathLengths (row : PathRow) (targetPred : List Nat) : List Int :=
  row.leafValid.mapIdx (fun leaf valid =>
    if valid then (leadingAgreements (pathMatches row targetPred leaf) : Int) else -1)

/-- `max` of a row: its largest entry and the first place of that entry. -/
def largestFirst (lengths : List Int) : Int × Nat :=
  (lengths.max?.getD (-1), lengths.idxOf (lengths.max?.getD (-1)))

/-- One request's row of `_select_tree_paths`. -/
def selectRow (row : PathRow) (targetPred : List Nat) : SampledRow :=
  let best := largestFirst (pathLengths row targetPred)
  { acceptLength := best.1.toNat
    selectedNodes := row.retrieve.getD best.2 []
    selectedTokens := row.pathTokens.getD best.2 []
    nextToken := targetPred.getD ((row.retrieve.getD best.2 []).getD best.1.toNat (-1)).toNat 0 }

/-- `_select_tree_paths`. Each request takes the first of its leaf paths that agree longest with the
target, and as next token the target's choice at the end of the agreement. -/
def selectTreePaths (trees : List Tree) (treeInputIds targetPred : List (List Nat)) : List SampledRow :=
  (pathRows trees treeInputIds).mapIdx (fun row paths => selectRow paths (targetPred.getD row []))

/-- One column of `index_select`. -/
def selectColumn (data : List Kv) (index : Int) : Except String Kv :=
  if index < 0 then .error "index out of range in self"
  else (data[index.toNat]?).elim (.error "index out of range in self") .ok

/-- `_compact_target_cache`: the request's own input, then the columns of the selected nodes. -/
def compactTargetCache (data : List Kv) (logicalPrefixLen physicalPrefixWidth : Nat)
    (selectedTreeIndices : List Int) : Except String (List Kv) := do
  let selected ← selectedTreeIndices.mapM (fun node => selectColumn data (node + physicalPrefixWidth))
  .ok (data.take logicalPrefixLen ++ selected)

/-- A numbered request's compact cache and decision. -/
def acceptEntry (selected : List SampledRow) (data : List (List Kv)) (prefixWidth : Nat)
    (entry : Request Kv × Nat) : Except String (List Kv × SampledRow) := do
  let sampled := (selected.getD entry.2 default).accepted
  let compacted ← compactTargetCache (data.getD entry.2 []) entry.1.inputIds.length prefixWidth
    sampled.selectedNodes
  .ok (compacted, sampled)

/-- `_accept_active_batch`. The batch is decided at once; then each request compacts its own row, in
batch order. An index that no column has fails the call. -/
def acceptActiveBatch (states : List (Request Kv)) (treeInputIds targetPred : List (List Nat))
    (cache : KvCache Kv) (prefixWidth : Nat) : Except String (List (List Kv × SampledRow)) :=
  states.zipIdx.mapM (acceptEntry (selectTreePaths (states.map Request.tree) treeInputIds targetPred)
    cache.data prefixWidth)

end acceptance

section loop

variable (limits : Eagle3Limits) (draft : Drafter)

/-- What a round does to a request: it takes its new cache, commits the accepted tokens up to the limit and
the first stop token, and has a new tree built when it goes on. -/
def commitAccepted (state : Request Kv) (compacted : List Kv) (acceptLength : Nat)
    (acceptedTokenIds : List Nat) (nextToken : Nat) : Request Kv :=
  let remaining : Int := limits.maxNewTokens - state.generatedTokens
  let newIds := sliceUpTo acceptedTokenIds remaining
  let stopOffset := newIds.findIdx? limits.isStop
  let newIds := stopOffset.elim newIds (fun offset => newIds.take (offset + 1))
  let inputIds := state.inputIds ++ newIds
  let generatedTokens := state.generatedTokens + newIds.length
  let finished := stopOffset.isSome || decide (limits.maxNewTokens ≤ generatedTokens) ||
    decide (limits.maxLogicalLength < inputIds.length)
  { state with
    inputIds := inputIds
    targetCache := compacted
    tree := if finished then state.tree else draft state.conversation inputIds nextToken
    iterations := state.iterations + 1
    generatedTokens := generatedTokens
    acceptLengthsRaw := state.acceptLengthsRaw ++ [min acceptLength (newIds.length - 1)]
    finished := finished }

/-- Put the new states of the unfinished requests back in their places. The loop changes the states
of a round where they are; here the round's list is a list of its own. -/
def writeBack {σ : Type} (finished : σ → Bool) : List σ → List σ → List σ
  | [], _ => []
  | state :: states, advanced =>
    if finished state then state :: writeBack finished states advanced
    else advanced.headD state :: writeBack finished states advanced.tail

variable (net : Network Nat Kv) (zero : Kv) (padTokenId : Nat)

/-- One round of the loop. -/
def decodeRound (states : List (Request Kv)) : Except String (List (Request Kv)) := do
  let active := states.filter (fun state => !state.finished)
  let packed := packTrees (active.map (fun state => (state.tree, state.inputIds.length))) padTokenId
  let cache ← packTargetCaches zero active packed.treeWidth
  let (targetPred, extended) ← forward net
    (treeAttentionMask (active.map (fun state => state.inputIds.length)) cache.currentLength packed.treeWidth)
    (some (packTreeMasks (active.map Request.tree) packed.treeWidth))
    packed.inputIds packed.positionIds cache
  let accepted ← acceptActiveBatch active packed.inputIds targetPred extended cache.currentLength
  .ok (writeBack Request.finished states ((active.zip accepted).map (fun entry =>
    commitAccepted limits draft entry.1 entry.2.1 entry.2.2.acceptLength
      (entry.2.2.selectedTokens.map Int.toNat) entry.2.2.nextToken)))

/-- The loop, for at most so many rounds. -/
def decodeLoop : Nat → List (Request Kv) → Except String (List (Request Kv))
  | 0, states => .ok states
  | rounds + 1, states =>
    if states.all Request.finished then .ok states
    else do
      let following ← decodeRound limits draft net zero padTokenId states
      decodeLoop rounds following

/-- A prompt's row of the prefill. -/
def promptIds (width : Nat) (prompt : List Nat) : List Nat :=
  prompt ++ List.replicate (width - prompt.length) padTokenId

/-- Its row of the attention mask. -/
def promptAttention (width : Nat) (prompt : List Nat) : List Bool :=
  List.replicate prompt.length true ++ List.replicate (width - prompt.length) false

/-- `position_ids`: how many columns are attended to up to a column, less one. -/
def promptPositions (attention : List Bool) : List Nat :=
  attention.mapIdx (fun column own => if own then (attention.take (column + 1)).count true - 1 else 0)

/-- The right-padded prefill, its split into one cache per request, and the first trees. -/
def prefill (prompts : List (List Nat)) : Except String (List (Request Kv)) := do
  let width := maximum (prompts.map List.length)
  let attentionMask := prompts.map (promptAttention width)
  let (targetPred, cache) ← forward net attentionMask none (prompts.map (promptIds padTokenId width))
    (attentionMask.map promptPositions) (allocateTargetKv zero prompts.length width 0)
  .ok (prompts.mapIdx (fun row prompt =>
    { conversation := row
      promptLen := prompt.length
      inputIds := prompt
      targetCache := (cache.data.getD row []).take prompt.length
      tree := draft row prompt ((targetPred.getD row []).getD (prompt.length - 1) 0)
      iterations := 0
      generatedTokens := 0
      acceptLengthsRaw := []
      finished := false }))

/-- `generate_conversations` at temperature zero, run for at most so many rounds: the final states. -/
def generateConversations (rounds : Nat) (prompts : List (List Nat)) :
    Except String (List (Request Kv)) := do
  let states ← prefill draft net zero padTokenId prompts
  decodeLoop limits draft net zero padTokenId rounds states

/-- `output_ids`: what a request has generated. -/
def Request.outputIds (state : Request Kv) : List Nat := state.inputIds.drop state.promptLen

end loop

end SpecBlock.Eagle3
