import SpecBlock.Serving.OverlapWorker
import SpecBlock.Serving.StopCheck

/-!
# Finalising verified requests on the first scheduler path

Target acceptance leaves one row of node indices per request, the accepted path from the root
and padding behind it. `_fill_requests` emits the tokens of each path until the request stops,
cuts the rows back to what was emitted and compacts them; logits, hidden states and verified
tokens are gathered by the compact indices. `_free_cache` returns the slots of all other nodes
and `verify` advances the sequence lengths.

Slots are allocated one by one, which is page size one. The acceptance kernels, the adjustment of
the logits before them and the forward pass are not modelled: their results are arguments, and
rows of logits and hidden states are opaque.
-/

namespace SpecBlock.Serving

open Rows

variable {G T α : Type}

/-- Free target slots: those ready for allocation, those waiting to be sorted in, and those
collected while a group of releases is open. -/
structure TokenToKVPoolAllocator where
  freePages : List Nat
  releasePages : List Nat
  needSort : Bool
  isNotInFreeGroup : Bool
  freeGroup : List (List Nat)
  deriving DecidableEq, Repr

namespace TokenToKVPoolAllocator

/-- Slots that can be allocated. -/
def availableSize (allocator : TokenToKVPoolAllocator) : Nat :=
  allocator.freePages.length + allocator.releasePages.length

/-- Sort the released slots in. -/
def mergeAndSortFree (allocator : TokenToKVPoolAllocator) : TokenToKVPoolAllocator :=
  if allocator.releasePages = [] then allocator
  else { allocator with
    freePages := (allocator.freePages ++ allocator.releasePages).mergeSort (fun left right => left ≤ right)
    releasePages := [] }

/-- Take slots from the front of the free ones. -/
def alloc (needSize : Nat) (allocator : TokenToKVPoolAllocator) :
    Option (List Nat × TokenToKVPoolAllocator) :=
  let allocator := if allocator.needSort = true ∧ allocator.freePages.length < needSize
    then allocator.mergeAndSortFree else allocator
  if allocator.freePages.length < needSize then none
  else some (allocator.freePages.take needSize,
    { allocator with freePages := allocator.freePages.drop needSize })

/-- Return slots. -/
def free (freeIndex : List Nat) (allocator : TokenToKVPoolAllocator) : TokenToKVPoolAllocator :=
  if freeIndex = [] then allocator
  else if allocator.isNotInFreeGroup then
    if allocator.needSort then { allocator with releasePages := allocator.releasePages ++ freeIndex }
    else { allocator with freePages := allocator.freePages ++ freeIndex }
  else { allocator with freeGroup := allocator.freeGroup ++ [freeIndex] }

/-- All slots the allocator holds. -/
def held (allocator : TokenToKVPoolAllocator) : List Nat :=
  allocator.freePages ++ allocator.releasePages ++ allocator.freeGroup.flatten

theorem held_free (freeIndex : List Nat) (allocator : TokenToKVPoolAllocator) :
    (allocator.free freeIndex).held.Perm (allocator.held ++ freeIndex) := by
  unfold free
  split
  next empty => simp [empty]
  split
  next =>
    split
    next =>
      simp only [held, List.append_assoc]
      exact (List.perm_append_comm.append_left _).append_left _
    next =>
      have moved : (freeIndex ++ (allocator.releasePages ++ allocator.freeGroup.flatten)).Perm
          ((allocator.releasePages ++ allocator.freeGroup.flatten) ++ freeIndex) :=
        List.perm_append_comm
      simpa only [held, List.append_assoc] using moved.append_left allocator.freePages
  next => simp [held, List.flatten_append]

end TokenToKVPoolAllocator

/-- What target acceptance leaves: the token of every node, the accepted paths as padded rows of
node indices, and their lengths without the bonus token. -/
structure AcceptedPaths where
  predict : List Int
  acceptIndex : List (List Int)
  acceptLength : List Nat
  deriving DecidableEq, Repr

/-- Rows of the target forward. -/
structure LogitsOutput (T : Type) where
  nextTokenLogits : List T
  hiddenStates : Option (List T)
  deriving DecidableEq, Repr

/-- The batch while it is verified. -/
structure VerifyBatch (G : Type) where
  reqs : List (DecodingReq G)
  reqPoolIndices : List Nat
  seqLens : List Nat
  seqLensCpu : List Nat
  inputIds : List Int
  outCacheLoc : List Nat
  reqToToken : ReqToToken
  allocator : TokenToKVPoolAllocator

/-- What emitting the tokens of one path leaves. -/
structure Emission (G : Type) where
  req : DecodingReq G
  acceptedThisReq : Nat
  hasFinished : Bool
  deriving DecidableEq, Repr

/-- Emit the tokens of a path one after the other until the request stops. -/
def emitTokens (rules : StopRules G) :
    List Int → DecodingReq G → Except RuntimeError (Emission G)
  | [], req => return ⟨req, 0, false⟩
  | tokenId :: rest, req =>
    let req := { req with outputIds := req.outputIds ++ [tokenId] }.checkFinished rules 1
    if req.finished then return ⟨req, 1, true⟩
    else do
      let req ← req.acceptGrammarToken rules tokenId
      let emission ← emitTokens rules rest req
      return { emission with acceptedThisReq := emission.acceptedThisReq + 1 }

/-- What emitting the paths of all requests leaves. -/
structure Emissions (G : Type) where
  reqs : List (DecodingReq G)
  finalPathLens : List Nat
  hasFinished : Bool
  deriving DecidableEq, Repr

/-- Emit the paths of the requests, which follow each other in the verified tokens. The counters
record the path as the target accepted it. -/
def emitRequests (rules : StopRules G) (verifiedIds : List Int) :
    Nat → List (DecodingReq G × Nat) → Except RuntimeError (Emissions G)
  | _, [] => return ⟨[], [], false⟩
  | offset, (req, pathLen) :: rest => do
    let emission ← emitTokens rules ((verifiedIds.drop offset).take pathLen) req
    let others ← emitRequests rules verifiedIds (offset + pathLen) rest
    return {
      reqs := { emission.req with
        specVerifyCt := emission.req.specVerifyCt + 1
        specAcceptedTokens := emission.req.specAcceptedTokens + (pathLen - 1) } :: others.reqs
      finalPathLens := emission.acceptedThisReq :: others.finalPathLens
      hasFinished := emission.hasFinished || others.hasFinished }

/-- Node indices of all rows without the padding. -/
def compactIndex (acceptIndex : List (List Int)) : List Nat :=
  (acceptIndex.flatten.filter (· ≠ -1)).map Int.toNat

/-- Pad every row from its length on. -/
def truncatePaths (acceptIndex : List (List Int)) (finalPathLens : List Nat) : List (List Int) :=
  List.zipWith (fun row pathLen =>
    row.mapIdx (fun position node => if pathLen ≤ position then -1 else node)) acceptIndex finalPathLens

/-- Indexing rows raises when an index is out of range. -/
def indexRows (indices : List Nat) (entries : List α) : Except RuntimeError (List α) :=
  if indices.all (· < entries.length) then .ok (gather indices entries)
  else .error ⟨"index out of range"⟩

/-- What filling the requests leaves. -/
structure Filled (G T : Type) where
  reqs : List (DecodingReq G)
  acceptIndex : List Nat
  acceptLength : List Nat
  verifiedId : List Int
  logitsOutput : LogitsOutput T
  acceptLensCpu : Option (List Nat)
  deriving DecidableEq, Repr

/-- Gather everything by the compact indices. -/
def gatherPaths (verifiedId : List Int) (logitsOutput : LogitsOutput T) (reqs : List (DecodingReq G))
    (acceptIndex acceptLength : List Nat) (acceptLensCpu : Option (List Nat)) :
    Except RuntimeError (Filled G T) := do
  let nextTokenLogits ← indexRows acceptIndex logitsOutput.nextTokenLogits
  let hiddenStates ← logitsOutput.hiddenStates.mapM (indexRows acceptIndex)
  return { reqs, acceptIndex, acceptLength, verifiedId, acceptLensCpu,
           logitsOutput := { nextTokenLogits, hiddenStates } }

/-- Append the accepted tokens and compact the accepted paths. -/
def fillRequests (rules : StopRules G) (skipFinalize : Bool) (reqs : List (DecodingReq G))
    (paths : AcceptedPaths) (logitsOutput : LogitsOutput T) : Except RuntimeError (Filled G T) := do
  let compactAcceptIndex := compactIndex paths.acceptIndex
  let compactVerifiedId ← indexRows compactAcceptIndex paths.predict
  if skipFinalize then
    gatherPaths compactVerifiedId logitsOutput reqs compactAcceptIndex paths.acceptLength none
  else
    let pathLens := paths.acceptLength.map (· + 1)
    let emissions ← emitRequests rules compactVerifiedId 0 (reqs.zip pathLens)
    if emissions.hasFinished then
      let compactAcceptIndex := compactIndex (truncatePaths paths.acceptIndex emissions.finalPathLens)
      let compactVerifiedId ← indexRows compactAcceptIndex paths.predict
      gatherPaths compactVerifiedId logitsOutput emissions.reqs compactAcceptIndex
        (emissions.finalPathLens.map (· - 1)) (some emissions.finalPathLens)
    else
      gatherPaths compactVerifiedId logitsOutput emissions.reqs compactAcceptIndex
        paths.acceptLength (some pathLens)

/-- The nodes that are evicted: all but the accepted ones. -/
def evictMask (draftTokens : Nat) (acceptIndex : List Nat) : List Bool :=
  acceptIndex.foldl (fun mask node => mask.set node false) (List.replicate draftTokens true)

/-- Entries under a mask, which has to have their number. -/
def selectMask (mask : List Bool) (entries : List α) : Except RuntimeError (List α) :=
  if mask.length = entries.length then
    .ok ((mask.zip entries).filterMap (fun entry => if entry.1 then some entry.2 else none))
  else .error ⟨"The shape of the mask does not match the shape of the indexed tensor"⟩

/-- Release the slots of rejected draft tokens and map the accepted positions to their slots. -/
def freeCache (draftToken : List Int) (acceptIndex acceptLength acceptLengthCpu : List Nat)
    (batch : VerifyBatch G) : Except RuntimeError (VerifyBatch G) := do
  let freed ← selectMask (evictMask draftToken.length acceptIndex) batch.outCacheLoc
  let outCacheLoc ← indexRows acceptIndex batch.outCacheLoc
  return { batch with
    allocator := batch.allocator.free freed
    outCacheLoc := outCacheLoc
    reqs := List.zipWith (fun req accepted => { req with
      kvCommittedLen := req.kvCommittedLen + (accepted + 1)
      kvAllocatedLen := req.kvCommittedLen + (accepted + 1) }) batch.reqs acceptLengthCpu
    reqToToken := assignReqToTokenPool
      (batch.reqPoolIndices.zip (List.zipWith (fun seqLen accepted => (seqLen, seqLen + accepted + 1))
        batch.seqLens acceptLength)) outCacheLoc batch.reqToToken }

/-- What verification returns, with the batch it leaves. -/
structure VerifyResult (G T : Type) where
  batch : VerifyBatch G
  acceptIndex : List Nat
  verifiedId : List Int
  logitsOutput : LogitsOutput T
  acceptLensCpu : List Nat

/-- Verification after target acceptance. Without the free-cache stage the lengths come from
the accepted paths as they are. -/
def verify (rules : StopRules G) (skipFreeCache : Bool) (draftToken : List Int)
    (paths : AcceptedPaths) (logitsOutput : LogitsOutput T) (batch : VerifyBatch G) :
    Except RuntimeError (VerifyResult G T) := do
  let filled ← fillRequests rules skipFreeCache batch.reqs paths logitsOutput
  let batch := { batch with reqs := filled.reqs }
  let acceptLensCpu := if skipFreeCache then filled.acceptLength.map (· + 1)
    else filled.acceptLensCpu.getD []
  let batch ← if skipFreeCache then pure batch
    else freeCache draftToken filled.acceptIndex filled.acceptLength (acceptLensCpu.map (· - 1)) batch
  return {
    batch := { batch with
      seqLens := List.zipWith (fun seqLen accepted => seqLen + (accepted + 1)) batch.seqLens
        filled.acceptLength
      seqLensCpu := List.zipWith (fun seqLen acceptLen => seqLen + acceptLen) batch.seqLensCpu
        acceptLensCpu }
    acceptIndex := filled.acceptIndex
    verifiedId := filled.verifiedId
    logitsOutput := filled.logitsOutput
    acceptLensCpu := acceptLensCpu }

/-- Allocate the slots of the draft tokens and map the positions of the trees to them. Evicting
from the prefix cache is a parameter. -/
def prepareForVerify (evict : TokenToKVPoolAllocator → TokenToKVPoolAllocator)
    (draftToken : List Int) (draftTokenNum : Nat) (batch : VerifyBatch G) :
    Except RuntimeError (VerifyBatch G) :=
  let allocator := if batch.allocator.availableSize < draftToken.length then evict batch.allocator
    else batch.allocator
  match allocator.alloc draftToken.length with
  | none => .error ⟨s!"Out of memory. Try to lower your batch size.\nTry to allocate {draftToken.length} tokens.\n"⟩
  | some (outCacheLoc, allocator) => .ok { batch with
      inputIds := draftToken
      outCacheLoc := outCacheLoc
      allocator := allocator
      reqs := batch.reqs.map (fun req => { req with kvAllocatedLen := req.kvAllocatedLen + 1 })
      reqToToken := assignReqToTokenPool
        (batch.reqPoolIndices.zip (batch.seqLens.map (fun seqLen => (seqLen, seqLen + draftTokenNum))))
        outCacheLoc batch.reqToToken }

end SpecBlock.Serving
