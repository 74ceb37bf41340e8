import SpecBlock.Serving.SpecInfo

/-!
# The worker's draft state over a decoding round

`forward_draft_extend` turns the prefill of a batch into its draft state: every
request gets as many cross slots as its dense draft cache used. `draft` copies
that state into the static rows of a captured graph and packs the trees the graph
emits into a verify input. After the target has accepted a path for each request,
`_refresh_draft_state` takes back the failed block of the requests that accepted
nothing, allocates slots for every accepted chain and assembles the next state.

The draft model and the captured graphs are parameters; what they return for a
request is arbitrary.
-/

namespace SpecBlock.Serving

open Rows

variable {T α β : Type}

/-- Configuration of the worker and of its two graph runners. -/
structure SpecBlockWorker where
  K : Nat
  powerOfTwo : ∃ exponent, K = 2 ^ exponent
  draftCaptureBs : List Nat
  draftCrossBuckets : List Nat
  refreshCaptureBs : List Nat
  refreshCrossBuckets : List Nat
  refreshAcceptBuckets : List Nat

theorem SpecBlockWorker.K_positive (worker : SpecBlockWorker) : 0 < worker.K := by
  obtain ⟨exponent, same⟩ := worker.powerOfTwo
  exact same ▸ Nat.two_pow_pos exponent

/-- What one request contributes to a draft input. -/
structure RequestDraft (T : Type) where
  hiddenState : T
  verifiedId : Nat
  acceptLength : Nat
  crossLoc : List Nat
  crossCount : Nat
  crossPosition : Nat
  tttK : List T
  tttV : List T
  b0Logits : T
  b0Hidden : T
  b0InputId : Nat
  b0RankLogits : T
  b0TopIndices : T
  deriving DecidableEq, Repr

/-- Parallel fields from the contributions of the requests. -/
def SpecBlockDraftInput.assemble (rows : List (RequestDraft T)) (newSeqLens : List Nat) :
    SpecBlockDraftInput T where
  hiddenStates := some (rows.map RequestDraft.hiddenState)
  verifiedId := some (rows.map RequestDraft.verifiedId)
  acceptLength := some (rows.map RequestDraft.acceptLength)
  crossLoc := rows.map RequestDraft.crossLoc
  crossCount := rows.map RequestDraft.crossCount
  crossPosition := rows.map RequestDraft.crossPosition
  tttK := rows.map RequestDraft.tttK
  tttV := rows.map RequestDraft.tttV
  b0Logits := some (rows.map RequestDraft.b0Logits)
  b0Hidden := some (rows.map RequestDraft.b0Hidden)
  b0InputId := some (rows.map RequestDraft.b0InputId)
  b0RankLogits := some (rows.map RequestDraft.b0RankLogits)
  b0TopIndices := some (rows.map RequestDraft.b0TopIndices)
  newSeqLens := some newSeqLens
  kvPool := true

/-- What `prefill_and_draft` returns for one request. -/
structure PrefillAndDraft (T : Type) where
  cacheCount : Nat
  position : Nat
  logits : T
  rank : T
  hidden : T
  tttK : List T
  tttV : List T
  topIndices : T

/-- The draft model's prefill: hidden rows, shifted ids, last hidden row, first token. -/
abbrev DraftPrefill (T : Type) := List T → List Nat → T → Nat → PrefillAndDraft T

/-- Draft state of the requests of a prefill batch, sliced by their extend lengths. -/
def prefillRequests (prefillAndDraft : DraftPrefill T) :
    List Nat → List T → List Nat → List Nat → PoolM (List (RequestDraft T))
  | [], _, _, _ => return []
  | extendLen :: extendLens, hidden, inputIds, firstToken :: nextTokenIds =>
    match (hidden.take extendLen).getLast? with
    | none => throw ⟨"cannot reshape an empty hidden slice"⟩
    | some lastHidden => do
      let shiftedIds := (inputIds.take extendLen).drop 1 ++ [firstToken]
      let drafted := prefillAndDraft (hidden.take extendLen) shiftedIds lastHidden firstToken
      let loc ← SpecBlockKVPool.alloc drafted.cacheCount
      let rest ← prefillRequests prefillAndDraft extendLens (hidden.drop extendLen)
        (inputIds.drop extendLen) nextTokenIds
      return {
        hiddenState := lastHidden
        verifiedId := firstToken
        acceptLength := 0
        crossLoc := loc
        crossCount := drafted.cacheCount
        crossPosition := drafted.position
        tttK := drafted.tttK
        tttV := drafted.tttV
        b0Logits := drafted.logits
        b0Hidden := drafted.hidden
        b0InputId := firstToken
        b0RankLogits := drafted.rank
        b0TopIndices := drafted.topIndices } :: rest
  | _ :: _, _, _, [] => throw ⟨"cannot view an empty token slice"⟩

/-- Draft state after the prefill of a batch. -/
def forwardDraftExtend (prefillAndDraft : DraftPrefill T) (extendLens : List Nat)
    (hidden : List T) (inputIds nextTokenIds seqLens : List Nat) :
    PoolM (SpecBlockDraftInput T) := do
  let rows ← prefillRequests prefillAndDraft extendLens hidden inputIds nextTokenIds
  return SpecBlockDraftInput.assemble rows seqLens

/-- Smallest listed bucket that is large enough. -/
def resolveBucket (buckets : List Nat) (required : Nat) : Option Nat :=
  buckets.find? (required ≤ ·)

/-- Static input row of a draft graph. -/
structure DraftRow (T : Type) where
  b0Logits : T
  b0RankLogits : T
  b0Hidden : T
  b0InputId : Nat
  active : Bool
  crossLoc : List Nat
  crossCount : Nat
  positionId : Int
  seqLen : Nat
  tttK : List T
  tttV : List T
  deriving DecidableEq, Repr

/-- Copying into the first rows: one source row is repeated, other lengths must agree. -/
def copyRows (activeBs : Nat) (source : List α) : Except RuntimeError (List α) :=
  if source.length = activeBs then .ok source
  else match source with
    | [only] => .ok (List.replicate activeBs only)
    | _ => .error ⟨"The size of tensor a must match the size of tensor b"⟩

/-- A field that must be present. -/
def present (field : Option α) : Except RuntimeError α :=
  match field with
  | some value => .ok value
  | none => .error ⟨"NoneType object"⟩

/-- A list entry that must exist. -/
def entryAt (entries : List α) (position : Nat) : Except RuntimeError α :=
  match entries[position]? with
  | some entry => .ok entry
  | none => .error ⟨"list index out of range"⟩

/-- A row of the static buffers that no request uses. -/
def DraftRow.cleared [Zero T] (row : DraftRow T) : DraftRow T where
  b0Logits := 0
  b0RankLogits := 0
  b0Hidden := 0
  b0InputId := 0
  active := false
  crossLoc := row.crossLoc.map (fun _ => 0)
  crossCount := 0
  positionId := 0
  seqLen := 0
  tttK := row.tttK.map (fun _ => 0)
  tttV := row.tttV.map (fun _ => 0)

/-- Cross slots that outlast the current block. -/
def persistentCount (K storedCount : Nat) : Nat := storedCount - K

/-- The cross part of a request copied into its static row: only the persistent
slots, whose tail keeps what the row held. -/
def copyCross (K cb request : Nat) (row : DraftRow T) (crossLoc : List Nat)
    (storedCount crossPosition : Nat) : Except RuntimeError (DraftRow T) :=
  let persistent := persistentCount K storedCount
  if cb < persistent then
    .error ⟨s!"SpecBlock cross history exceeds the resolved graph bucket: request={request}, persistent_count={persistent}, bucket_width={cb}."⟩
  else if crossLoc.length < persistent then
    .error ⟨s!"SpecBlock cross metadata exceeds allocated request state: request={request}, persistent_count={persistent}, cross_loc_size={crossLoc.length}."⟩
  else .ok { row with
    crossLoc := crossLoc.take persistent ++ row.crossLoc.drop persistent
    crossCount := persistent
    positionId := (crossPosition : Int) - 1 }

/-- The batch fits the graph and the parallel fields have one entry per active request. -/
def requireAligned (capacity : Nat) (info : SpecBlockDraftInput T) (activeBs : Nat) :
    Except RuntimeError Unit := do
  let b0Logits ← present info.b0Logits
  let stateLengths := [info.crossLoc.length, info.crossCount.length, info.crossPosition.length,
    info.tttK.length, info.tttV.length]
  if activeBs = 0 ∨ capacity < activeBs then
    throw ⟨s!"Invalid SpecBlock active batch for graph replay: active_bs={activeBs}, batch_capacity={capacity}."⟩
  else if b0Logits.length ≠ activeBs ∨ stateLengths.any (· ≠ activeBs) then
    throw ⟨s!"SpecBlock request state is not aligned with the active batch: active_bs={activeBs}, tensor_bs={b0Logits.length}, state_lengths={stateLengths}."⟩
  else return ()

/-- The sequence lengths a draft graph is given. -/
def copySeqLens (info : SpecBlockDraftInput T) (activeBs : Nat) : Except RuntimeError (List Nat) :=
  match info.newSeqLens with
  | none => throw ⟨"SpecBlock draft graph requires current sequence lengths."⟩
  | some newSeqLens => copyRows activeBs (newSeqLens.take activeBs)

/-- Copy the active requests into the first static rows and reset the others. -/
def copySpecIntoBuffers [Zero T] (K cb : Nat) (static : List (DraftRow T))
    (info : SpecBlockDraftInput T) (activeBs : Nat) : Except RuntimeError (List (DraftRow T)) := do
  requireAligned static.length info activeBs
  let b0Logits ← copyRows activeBs (← present info.b0Logits)
  let b0RankLogits ← copyRows activeBs (← present info.b0RankLogits)
  let b0Hidden ← copyRows activeBs (← present info.b0Hidden)
  let b0InputId ← copyRows activeBs (← present info.b0InputId)
  let seqLens ← copySeqLens info activeBs
  let active ← (List.range activeBs).mapM (fun request => do
    let row := {
      b0Logits := ← entryAt b0Logits request
      b0RankLogits := ← entryAt b0RankLogits request
      b0Hidden := ← entryAt b0Hidden request
      b0InputId := ← entryAt b0InputId request
      active := true
      crossLoc := (← entryAt static request).crossLoc
      crossCount := 0
      positionId := 0
      seqLen := ← entryAt seqLens request
      tttK := ← entryAt info.tttK request
      tttV := ← entryAt info.tttV request }
    copyCross K cb request row (← entryAt info.crossLoc request)
      (← entryAt info.crossCount request) (← entryAt info.crossPosition request))
  return active ++ (static.drop activeBs).map DraftRow.cleared

/-- The batch and cross buckets of a draft graph. -/
def resolveDraftBuckets (worker : SpecBlockWorker) (info : SpecBlockDraftInput T)
    (activeBs : Nat) : Option (Nat × Nat) :=
  let counts := info.crossCount.take activeBs
  let maxPersistent := (counts.map (persistentCount worker.K)).foldl max 0
  match resolveBucket worker.draftCaptureBs activeBs,
    resolveBucket worker.draftCrossBuckets maxPersistent with
  | some bcap, some cb => if counts.length = activeBs then some (bcap, cb) else none
  | _, _ => none

/-- Build the trees of a batch from its draft state. The captured graph emits the
node depths of each row's tree; its finaliser adds the row's sequence length. -/
def draft [Zero T] (worker : SpecBlockWorker) (static : Nat → Nat → List (DraftRow T))
    (emitDepths : List (DraftRow T) → List (List Nat)) (info : SpecBlockDraftInput T)
    (batchSize : Nat) : Except RuntimeError (SpecBlockVerifyInput T) :=
  match resolveDraftBuckets worker info batchSize with
  | none => throw ⟨s!"SpecBlock draft inputs exceed the supported CUDA Graph buckets: batch_size={batchSize}, max_cross_count={info.crossCount.foldl max 0}."⟩
  | some bucket => do
    let rows ← copySpecIntoBuffers worker.K bucket.2 (static bucket.1 bucket.2) info batchSize
    return {
      positions := List.zipWith (fun row depths => depths.map (row.seqLen + ·))
        (rows.take batchSize) (emitDepths rows)
      hiddenStates := info.hiddenStates
      verifiedId := info.verifiedId
      crossLoc := info.crossLoc
      crossCount := info.crossCount
      crossPosition := info.crossPosition
      tttK := info.tttK
      tttV := info.tttV
      kvPool := true }

/-- What a replay of the refresh graph returns for one request. -/
structure RefreshReplay (T : Type) where
  logits : T
  rank : T
  hidden : T
  tttK : List T
  tttV : List T
  topIndices : T

/-- Take back the last block of every request that accepted nothing. -/
def rollbackRejected (K : Nat) : Nat → List Nat → List (List Nat) → List Nat →
    PoolM (List (List Nat) × List Nat)
  | _, [], locs, counts => return (locs, counts)
  | request, acceptLen :: accepts, loc :: locs, count :: counts =>
    if acceptLen ≠ 0 then do
      let rest ← rollbackRejected K (request + 1) accepts locs counts
      return (loc :: rest.1, count :: rest.2)
    else if count < K then
      throw ⟨s!"SpecBlock zero-accept rollback requires the current block-0 K={K} slots, got cross_count={count} for request {request}."⟩
    else do
      SpecBlockKVPool.release (loc.drop (loc.length - K))
      let rest ← rollbackRejected K (request + 1) accepts locs counts
      return (loc.take (loc.length - K) :: rest.1, (count - K) :: rest.2)
  | _, _ :: _, _, _ => throw ⟨"list index out of range"⟩

/-- A refresh graph large enough for the batch, its cross histories and its chains. -/
def requireRefreshBuckets (worker : SpecBlockWorker) (counts ns : List Nat) :
    Except RuntimeError Unit :=
  let maxCross := counts.foldl max 0
  match ns.max? with
  | none => throw ⟨"max() arg is an empty sequence"⟩
  | some maxN =>
    match resolveBucket worker.refreshCaptureBs ns.length,
      resolveBucket worker.refreshCrossBuckets maxCross,
      resolveBucket worker.refreshAcceptBuckets maxN with
    | some _, some _, some _ => return ()
    | _, _, _ => throw ⟨s!"SpecBlock refresh request exceeds supported CUDA Graph buckets: bs={ns.length}, max_cross={maxCross}, max_N={maxN}."⟩

/-- Allocate slots for every accepted chain, in batch order. -/
def allocEach (K : Nat) : List Nat → PoolM (List (List Nat))
  | [] => return []
  | n :: rest => do
    let loc ← SpecBlockKVPool.alloc (n * K)
    let locs ← allocEach K rest
    return loc :: locs

/-- The last row of a request's chain in the flat chains of the batch. -/
def chainTail (flat : List α) (counts : List Nat) (request : Nat) : Except RuntimeError α :=
  entryAt flat (min ((counts.take (request + 1)).sum - 1) (flat.length - 1))

/-- What each request contributes to the next draft input. -/
def refreshRows (K : Nat) (verifiedId : List Nat) (verifiedHidden : List T)
    (acceptLengths positions : List Nat) (locs newIndices : List (List Nat)) (counts : List Nat)
    (replay : Nat → RefreshReplay T) : Except RuntimeError (List (RequestDraft T)) :=
  let ns : List Nat := acceptLengths.map (· + 1)
  (List.range acceptLengths.length).mapM (fun request => do
    let acceptLen ← entryAt acceptLengths request
    let position ← entryAt positions request
    let outputs := replay request
    return {
      hiddenState := ← chainTail verifiedHidden ns request
      verifiedId := ← chainTail verifiedId ns request
      acceptLength := acceptLen
      crossLoc := (← entryAt locs request) ++ (← entryAt newIndices request)
      crossCount := (← entryAt counts request) + (acceptLen + 1) * K
      crossPosition := if acceptLen = 0 then position else position + 1 + (acceptLen + 1)
      tttK := outputs.tttK
      tttV := outputs.tttV
      b0Logits := outputs.logits
      b0Hidden := outputs.hidden
      b0InputId := ← chainTail verifiedId ns request
      b0RankLogits := outputs.rank
      b0TopIndices := outputs.topIndices })

/-- A pure part of a computation that uses the pool. -/
def PoolM.ofExcept : Except RuntimeError α → PoolM α
  | .ok value => return value
  | .error reason => throw reason

/-- Draft state for the next round from the accepted chains of this one. -/
def refreshDraftState (worker : SpecBlockWorker) (info : SpecBlockVerifyInput T)
    (verifiedId : List Nat) (verifiedHidden : List T) (acceptLengths : List Nat)
    (replay : Nat → RefreshReplay T) (seqLens : List Nat) : PoolM (SpecBlockDraftInput T) := do
  let rolled ← rollbackRejected worker.K 0 acceptLengths info.crossLoc info.crossCount
  let ns : List Nat := acceptLengths.map (· + 1)
  PoolM.ofExcept (requireRefreshBuckets worker rolled.2 ns)
  let newIndices ← allocEach worker.K ns
  let rows ← PoolM.ofExcept (refreshRows worker.K verifiedId verifiedHidden acceptLengths
    info.crossPosition rolled.1 newIndices rolled.2 replay)
  return SpecBlockDraftInput.assemble rows seqLens

theorem except_bind_ok {first : Except RuntimeError α} {rest : α → Except RuntimeError β}
    {result : β} :
    (first >>= rest) = .ok result ↔ ∃ value, first = .ok value ∧ rest value = .ok result := by
  cases first with
  | ok value => simp [bind, Except.bind]
  | error reason => simp [bind, Except.bind]

/-- A pure part succeeds when it does, and leaves the pool alone. -/
theorem ofExcept_ok {computed : Except RuntimeError α} {result : α}
    {pool final : SpecBlockKVPool} :
    PoolM.ofExcept computed pool = .ok result final ↔ computed = .ok result ∧ pool = final := by
  cases computed with
  | ok value => simp [PoolM.ofExcept, PoolM.pure_ok]
  | error reason => simp [PoolM.ofExcept, PoolM.throw_ok]

theorem entryAt_ok {entries : List α} {position : Nat} {entry : α} :
    entryAt entries position = .ok entry ↔ entries[position]? = some entry := by
  unfold entryAt
  cases entries[position]? with
  | none => simp
  | some found => simp

theorem requireAligned_ok {capacity activeBs : Nat} {info : SpecBlockDraftInput T} {done : Unit}
    (required : requireAligned capacity info activeBs = .ok done) :
    0 < activeBs ∧ activeBs ≤ capacity ∧ info.crossLoc.length = activeBs ∧
      info.crossCount.length = activeBs ∧ info.crossPosition.length = activeBs ∧
      info.tttK.length = activeBs ∧ info.tttV.length = activeBs := by
  obtain ⟨logits, found, checks⟩ := except_bind_ok.mp required
  dsimp only at checks
  split at checks
  · simp [throw, throwThe, MonadExceptOf.throw] at checks
  next fits =>
    split at checks
    · simp [throw, throwThe, MonadExceptOf.throw] at checks
    next aligned =>
      have capacities : 0 < activeBs ∧ activeBs ≤ capacity := by omega
      simp only [List.any_cons, List.any_nil, Bool.or_false, Bool.or_eq_true, decide_eq_true_eq,
        not_or, not_not] at aligned
      exact ⟨capacities.1, capacities.2, aligned.2.1, aligned.2.2.1, aligned.2.2.2.1,
        aligned.2.2.2.2.1, aligned.2.2.2.2.2⟩

theorem draft_ok [Zero T] {worker : SpecBlockWorker} {static : Nat → Nat → List (DraftRow T)}
    {emitDepths : List (DraftRow T) → List (List Nat)} {info : SpecBlockDraftInput T}
    {batchSize : Nat} {result : SpecBlockVerifyInput T}
    (ran : draft worker static emitDepths info batchSize = .ok result) :
    ∃ (bucket : Nat × Nat) (rows : List (DraftRow T)),
      resolveDraftBuckets worker info batchSize = some bucket ∧
      copySpecIntoBuffers worker.K bucket.2 (static bucket.1 bucket.2) info batchSize = .ok rows ∧
      result = {
        positions := List.zipWith (fun row depths => depths.map (row.seqLen + ·))
          (rows.take batchSize) (emitDepths rows)
        hiddenStates := info.hiddenStates
        verifiedId := info.verifiedId
        crossLoc := info.crossLoc
        crossCount := info.crossCount
        crossPosition := info.crossPosition
        tttK := info.tttK
        tttV := info.tttV
        kvPool := true } := by
  unfold draft at ran
  split at ran
  · simp [throw, throwThe, MonadExceptOf.throw] at ran
  next bucket resolved =>
    obtain ⟨rows, copied, done⟩ := except_bind_ok.mp ran
    exact ⟨bucket, rows, resolved, copied, (Except.ok.inj done).symm⟩

/-- A draft that succeeds found the slots of exactly the active requests. -/
theorem draft_length [Zero T] {worker : SpecBlockWorker} {static : Nat → Nat → List (DraftRow T)}
    {emitDepths : List (DraftRow T) → List (List Nat)} {info : SpecBlockDraftInput T}
    {batchSize : Nat} {result : SpecBlockVerifyInput T}
    (ran : draft worker static emitDepths info batchSize = .ok result) :
    info.crossLoc.length = batchSize := by
  obtain ⟨bucket, rows, -, copied, -⟩ := draft_ok ran
  obtain ⟨done, required, -⟩ := except_bind_ok.mp copied
  exact (requireAligned_ok required).2.2.1

end SpecBlock.Serving
