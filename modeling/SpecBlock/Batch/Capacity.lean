import Mathlib.Algebra.BigOperators.Ring.List
import Mathlib.Algebra.Order.Ring.Nat
import Mathlib.Tactic.Ring
import SpecBlock.Foundation.Runs
import SpecBlock.Batch.Generation

/-!
# The capacity planner and the caches of the EAGLE3 loop

`capacity.py` estimates, from the lengths of the prompts and the declared width of the trees, what the
loops allocate, so that a wave that does not fit is refused before it is started. Its formulas name the
same tensors as the loops.

The EAGLE3 loop owns a cache for every request, and in each round packs those of the unfinished ones
into one padded cache that has room for the trees. What a name refers to is freed only once the name is
bound again: a round packs its trees and caches while those of the round before are still there, and a
request's cache is replaced while the old one is still owned.

The estimate has the sizes of the first round, and counts the padded prefill beside them. A moment of a
later round is within it exactly if what has been gained since, older allocations included, is no more
than what has been spared: the padded prefill, the rows of finished requests, the columns of narrower
trees.
-/

namespace SpecBlock.Batch

/-- `KVGeometry`: what decides the size of a token's keys and values. -/
structure KVGeometry where
  layers : Nat
  kvHeads : Nat
  headDim : Nat
  bytesPerElement : Nat

/-- `bytes_per_batch_token`. -/
def KVGeometry.bytesPerBatchToken (geometry : KVGeometry) : Nat :=
  geometry.layers * 2 * geometry.kvHeads * geometry.headDim * geometry.bytesPerElement

/-- `MemoryEstimate`: a part of the memory that a batch needs, with the name a report gives it. -/
structure MemoryEstimate where
  name : String
  bytes : Nat

/-- `_estimate`: keys and values of all layers for so many rows of so many tokens. -/
def memoryEstimate (name : String) (geometry : KVGeometry) (rows width : Nat) : MemoryEstimate :=
  ⟨name, geometry.bytesPerBatchToken * rows * width⟩

/-- `_tensor_bytes`. -/
def tensorBytes (shape : List Nat) (bytesPerElement : Nat) : Nat := shape.foldl (· * ·) bytesPerElement

/-- `specblock_peak_estimates`, one entry for each tensor of a round; a number of new tokens is not
negative here. The dense cache has room for two trees, the mask for the longest prompt and one tree. -/
def specblockPeakEstimates (geometry : KVGeometry) (promptLengths : List Nat)
    (maxNewTokens maxTreeWidth maskBytesPerElement : Nat) : Except String (List MemoryEstimate) :=
  if promptLengths = [] ∨ 0 ∈ promptLengths then
    .error "prompt_lengths must be non-empty positive integers"
  else if maxTreeWidth = 0 then
    .error "max_new_tokens must be non-negative and tree width positive"
  else
    let batch := promptLengths.length
    let promptWidth := maximum promptLengths
    let cacheWidth := promptWidth + maxNewTokens + 2 * maxTreeWidth
    .ok [
      memoryEstimate "specblock_dense_target_kv" geometry batch cacheWidth,
      ⟨"specblock_verify_additive_mask",
        tensorBytes [batch, 1, maxTreeWidth, promptWidth + maxTreeWidth] maskBytesPerElement⟩,
      ⟨"specblock_tree_ids_positions", tensorBytes [batch, maxTreeWidth] 8 * 2⟩]

/-- Keys and values of all layers, each of shape `[rows, heads, capacity, head_dim]`. -/
def targetKvBytes (geometry : KVGeometry) (rows capacity : Nat) : Nat :=
  geometry.layers * (2 * tensorBytes [rows, geometry.kvHeads, capacity, geometry.headDim]
    geometry.bytesPerElement)

/-- Token ids and positions of packed trees. -/
def treeIdsBytes (rows treeWidth : Nat) : Nat := tensorBytes [rows, treeWidth] 8 * 2

/-- Allocated keys and values have as many bytes as their tokens. -/
theorem targetKvBytes_eq (geometry : KVGeometry) (rows capacity : Nat) :
    targetKvBytes geometry rows capacity = geometry.bytesPerBatchToken * rows * capacity := by
  simp only [targetKvBytes, tensorBytes, List.foldl_cons, List.foldl_nil, KVGeometry.bytesPerBatchToken]
  ring

section loop

/-- `_RequestState` of the EAGLE3 loop, as far as its cache goes: `inputLength` is the width of
`input_ids`, `cacheWidth` that of the cache it owns, and `accepted` are the token ids that the round has
accepted for it and not yet committed. -/
structure Eagle3Request where
  promptLen : Nat
  inputLength : Nat
  cacheWidth : Nat
  treeWidth : Nat
  generatedTokens : Nat
  accepted : List Nat
  finished : Bool

/-- What ends a request: the token limit, a stop token, or an input past the longest logical length. -/
structure Eagle3Limits where
  maxNewTokens : Nat
  isStop : Nat → Bool
  maxLogicalLength : Int

/-- `_compact_target_cache` for a request: its new cache has the prefix and all accepted tokens. -/
def Eagle3Request.compact (acceptedTokenIds : List Nat) (request : Eagle3Request) : Eagle3Request :=
  { request with
    cacheWidth := request.inputLength + acceptedTokenIds.length
    accepted := acceptedTokenIds }

/-- Commit the accepted tokens of a request: its output takes those up to the limit and the first stop
token. -/
def Eagle3Request.commit (limits : Eagle3Limits) (request : Eagle3Request) : Eagle3Request :=
  let remaining : Int := limits.maxNewTokens - request.generatedTokens
  let newIds := sliceUpTo request.accepted remaining
  let stopOffset := newIds.findIdx? limits.isStop
  let newIds := stopOffset.elim newIds (fun offset => newIds.take (offset + 1))
  let inputLength := request.inputLength + newIds.length
  let generatedTokens := request.generatedTokens + newIds.length
  { request with
    inputLength := inputLength
    generatedTokens := generatedTokens
    accepted := []
    finished := stopOffset.isSome || decide (limits.maxNewTokens ≤ generatedTokens) ||
      decide (limits.maxLogicalLength < inputLength) }

/-- One request's share of the end of a round: commit, and draft again when it goes on. -/
def Eagle3Request.advance (limits : Eagle3Limits) (treeWidth : Nat) (request : Eagle3Request) :
    Eagle3Request :=
  if request.finished then request
  else
    let committed := request.commit limits
    if committed.finished then committed else { committed with treeWidth := treeWidth }

/-- The packed cache of a round. -/
structure PackedCache where
  rows : Nat
  prefixWidth : Nat
  treeWidth : Nat

/-- The columns of all rows of a packed cache. -/
def PackedCache.columns (packed : PackedCache) : Nat :=
  packed.rows * (packed.prefixWidth + packed.treeWidth)

/-- The packed trees of a round: ids, positions and the mask between their nodes. -/
structure TreeWorkspace where
  rows : Nat
  treeWidth : Nat

/-- What the packed trees of a round take. -/
def TreeWorkspace.bytes (workspace : TreeWorkspace) : Nat :=
  treeIdsBytes workspace.rows workspace.treeWidth +
    tensorBytes [workspace.rows, 1, workspace.treeWidth, workspace.treeWidth] 1

/-- The requests, and what else the loop refers to, the newest first: packed caches, packed trees, and
widths of request caches that have been replaced. An older one is referenced until its name is bound
again. -/
structure Eagle3State where
  requests : List Eagle3Request
  packed : List PackedCache
  workspaces : List TreeWorkspace
  replaced : List Nat

/-- The unfinished requests. -/
def Eagle3State.active (state : Eagle3State) : List Eagle3Request :=
  state.requests.filter (fun request => !request.finished)

/-- `_pack_trees`: the packed trees of the active requests are made beside those of the last round. -/
def packTreeRows (state : Eagle3State) : Eagle3State :=
  { state with
    workspaces := ⟨state.active.length, maximum (state.active.map Eagle3Request.treeWidth)⟩ ::
      state.workspaces }

/-- `_pack_target_caches`: the packed cache of the active requests is allocated while `packed_cache`
still refers to the one of the last round. -/
def packCaches (state : Eagle3State) : Eagle3State :=
  { state with
    packed :=
      { rows := state.active.length
        prefixWidth := maximum (state.active.map Eagle3Request.inputLength)
        treeWidth := maximum (state.active.map Eagle3Request.treeWidth) } :: state.packed }

/-- `state.target_cache = _compact_target_cache(…)` for the request at a place: the new cache is made
while the request still owns the old one. -/
def compactCache (place : Nat) (acceptedTokenIds : List Nat) (state : Eagle3State) : Eagle3State :=
  match state.requests[place]? with
  | none => state
  | some request =>
    { state with
      requests := state.requests.set place (request.compact acceptedTokenIds)
      replaced := request.cacheWidth :: state.replaced }

/-- The requests after the prefill: each owns the cache of its prompt, and a tree. -/
def prefilledRequests (promptLengths : List Nat) (trees : Nat → Nat) : List Eagle3Request :=
  promptLengths.mapIdx (fun place length => ⟨length, length, length, trees place, 0, [], false⟩)

/-- What holds in every state of a run: the requests are those of the prompts, none has lost columns,
and no tree that was packed or waits is wider than declared. -/
structure Eagle3Invariant (promptLengths : List Nat) (declared : Nat) (state : Eagle3State) : Prop where
  prompts : state.requests.map Eagle3Request.promptLen = promptLengths
  grown : ∀ request ∈ state.requests, request.promptLen ≤ request.inputLength ∧
    request.promptLen ≤ request.cacheWidth
  narrow : ∀ request ∈ state.requests, request.treeWidth ≤ declared
  packed : ∀ packed ∈ state.packed, packed.rows ≤ promptLengths.length ∧ packed.treeWidth ≤ declared
  workspaces : ∀ workspace ∈ state.workspaces,
    workspace.rows ≤ promptLengths.length ∧ workspace.treeWidth ≤ declared

variable {limits : Eagle3Limits} {promptLengths : List Nat} {declared : Nat} {state : Eagle3State}

/-- What is packed has a row for each active request and no more columns of trees than declared. -/
theorem Eagle3Invariant.active (invariant : Eagle3Invariant promptLengths declared state) :
    state.active.length ≤ promptLengths.length ∧
      maximum (state.active.map Eagle3Request.treeWidth) ≤ declared := by
  have count : state.requests.length = promptLengths.length := by
    rw [← invariant.prompts, List.length_map]
  refine ⟨count ▸ List.length_filter_le _ _, maximum_le _ _ fun width member => ?_⟩
  obtain ⟨request, inActive, rfl⟩ := List.mem_map.mp member
  exact invariant.narrow request (List.mem_of_mem_filter inActive)

end loop

end SpecBlock.Batch
