import SpecBlock.Serving.Worker

/-!
# Schedule batches and the steps of the scheduler

A schedule batch lists its requests and their sequence lengths beside the draft
state of the worker. The worker prefills a batch or decodes it for one round; the
scheduler filters out finished requests and merges a prefilled batch into the
running one. `filter_batch` returns early when no request stays and when all do.

Steps act on any live batch, in any order. Two history variables record what the
batches are compared with: the draft state last computed for each request from its
own inputs, and how many leading requests of a batch have kept their place since
its draft state was built.
-/

namespace SpecBlock.Serving

open Rows

variable {T α : Type}

/-- A request as a batch sees it. -/
structure Req where
  rid : Nat
  finished : Bool
  deriving DecidableEq, Repr

/-- Requests with their sequence lengths and the draft state of the worker. -/
structure ScheduleBatch (T : Type) where
  reqs : List Req
  seqLens : List Nat
  specInfo : Option (SpecBlockDraftInput T)
  deriving DecidableEq, Repr

namespace ScheduleBatch

/-- Positions of the requests that are neither finished nor excluded. -/
def unfinishedIndices (batch : ScheduleBatch T) (chunkedReqToExclude : List Nat) : List Nat :=
  (List.range batch.reqs.length).filter (fun position =>
    match batch.reqs[position]? with
    | some req => !req.finished && !chunkedReqToExclude.contains req.rid
    | none => false)

/-- Draft state of the kept requests, when there is one. -/
def filterSpecInfo (keep : List Nat) : Option (SpecBlockDraftInput T) →
    PoolM (Option (SpecBlockDraftInput T))
  | none => return none
  | some info => do return some (← info.filterBatch keep)

/-- Keep the given positions, or those still unfinished. -/
def filterBatch (chunkedReqToExclude : List Nat) (keepIndices : Option (List Nat))
    (batch : ScheduleBatch T) : PoolM (ScheduleBatch T) :=
  let keep := keepIndices.getD (batch.unfinishedIndices chunkedReqToExclude)
  if keep = [] then
    -- Filter out all requests: the draft state is not told.
    return { batch with reqs := [] }
  else if keep.length = batch.reqs.length then
    return batch
  else do
    let reqs ← index keep batch.reqs
    let seqLens ← index keep batch.seqLens
    let specInfo ← filterSpecInfo keep batch.specInfo
    return { reqs, seqLens, specInfo }

/-- Append the requests of another batch. -/
def mergeBatch (batch other : ScheduleBatch T) : ScheduleBatch T where
  reqs := batch.reqs ++ other.reqs
  seqLens := batch.seqLens ++ other.seqLens
  specInfo := batch.specInfo.map (fun info =>
    match other.specInfo with
    | none => info
    | some theirs => info.mergeBatch theirs)

end ScheduleBatch

/-- A request that enters a prefill batch, with what the target computed for it. -/
structure PrefillRequest (T : Type) where
  req : Req
  seqLen : Nat
  prompt : List Nat
  hidden : List T
  lastHidden : T
  firstToken : Nat
  covered : prompt.length = hidden.length + 1

/-- Hidden rows of every prompt position. -/
def PrefillRequest.hiddenRows (request : PrefillRequest T) : List T :=
  request.hidden ++ [request.lastHidden]

/-- Prefill a batch of requests. -/
def prefillBatch (prefillAndDraft : DraftPrefill T) (requests : List (PrefillRequest T)) :
    PoolM (ScheduleBatch T) := do
  let seqLens := requests.map PrefillRequest.seqLen
  let info ← forwardDraftExtend prefillAndDraft
    (requests.map (fun request => request.prompt.length))
    (requests.flatMap PrefillRequest.hiddenRows) (requests.flatMap PrefillRequest.prompt)
    (requests.map PrefillRequest.firstToken) seqLens
  return { reqs := requests.map PrefillRequest.req, seqLens, specInfo := some info }

/-- The path the target accepted for a request, up to where the request stopped; its
last token is the target's own. -/
structure AcceptedChain (T : Type) where
  tokens : List Nat
  lastToken : Nat
  hidden : List T
  lastHidden : T
  finished : Bool
  covered : hidden.length = tokens.length

namespace AcceptedChain

/-- Tokens the request commits. -/
def verifiedIds (chain : AcceptedChain T) : List Nat := chain.tokens ++ [chain.lastToken]

/-- Hidden rows of the committed tokens. -/
def verifiedHidden (chain : AcceptedChain T) : List T := chain.hidden ++ [chain.lastHidden]

/-- Accepted draft tokens, without the target's own. -/
def acceptLength (chain : AcceptedChain T) : Nat := chain.tokens.length

end AcceptedChain

/-- The draft input a decode step starts from. -/
def requireDraftInput (specInfo : Option (SpecBlockDraftInput T)) :
    Except RuntimeError (SpecBlockDraftInput T) :=
  match specInfo with
  | some info => .ok info
  | none => .error ⟨"[SpecBlockWorker.draft] expected batch.spec_info to be SpecBlockDraftInput; got NoneType."⟩

/-- One decode step of a batch: draft, verify with the given accepted chains, refresh. -/
def decodeBatch [Zero T] (worker : SpecBlockWorker) (static : Nat → Nat → List (DraftRow T))
    (emitDepths : List (DraftRow T) → List (List Nat)) (chains : List (AcceptedChain T))
    (replay : Nat → RefreshReplay T) (batch : ScheduleBatch T) : PoolM (ScheduleBatch T) := do
  let info ← PoolM.ofExcept (requireDraftInput batch.specInfo)
  let verifyInfo ← PoolM.ofExcept (draft worker static emitDepths info batch.reqs.length)
  let reqs := List.zipWith (fun req chain => { req with finished := chain.finished })
    batch.reqs chains
  let seqLens := List.zipWith (fun seqLen chain => seqLen + chain.acceptLength + 1)
    batch.seqLens chains
  let next ← refreshDraftState worker verifyInfo (chains.flatMap AcceptedChain.verifiedIds)
    (chains.flatMap AcceptedChain.verifiedHidden) (chains.map AcceptedChain.acceptLength)
    replay seqLens
  return { reqs, seqLens, specInfo := some next }

/-- The draft state prefill computes for a request that was granted the given slots. -/
def PrefillRequest.draft (prefillAndDraft : DraftPrefill T) (request : PrefillRequest T)
    (granted : List Nat) : RequestDraft T :=
  let drafted := prefillAndDraft request.hiddenRows (request.prompt.drop 1 ++ [request.firstToken])
    request.lastHidden request.firstToken
  { hiddenState := request.lastHidden
    verifiedId := request.firstToken
    acceptLength := 0
    crossLoc := granted
    crossCount := drafted.cacheCount
    crossPosition := drafted.position
    tttK := drafted.tttK
    tttV := drafted.tttV
    b0Logits := drafted.logits
    b0Hidden := drafted.hidden
    b0InputId := request.firstToken
    b0RankLogits := drafted.rank
    b0TopIndices := drafted.topIndices }

/-- Slots a request keeps when it accepts some tokens: all, or all but its failed block. -/
def RequestDraft.kept (K acceptLen : Nat) (row : RequestDraft T) : List Nat :=
  if acceptLen = 0 then row.crossLoc.take (row.crossLoc.length - K) else row.crossLoc

/-- The draft state a refresh computes for a request from its own previous state, its own
chain and the graph's outputs for it. -/
def RequestDraft.refreshed (K : Nat) (chain : AcceptedChain T) (outputs : RefreshReplay T)
    (granted : List Nat) (row : RequestDraft T) : RequestDraft T where
  hiddenState := chain.lastHidden
  verifiedId := chain.lastToken
  acceptLength := chain.acceptLength
  crossLoc := row.kept K chain.acceptLength ++ granted
  crossCount := (if chain.acceptLength = 0 then row.crossCount - K else row.crossCount) +
    (chain.acceptLength + 1) * K
  crossPosition := if chain.acceptLength = 0 then row.crossPosition
    else row.crossPosition + 1 + (chain.acceptLength + 1)
  tttK := outputs.tttK
  tttV := outputs.tttV
  b0Logits := outputs.logits
  b0Hidden := outputs.hidden
  b0InputId := chain.lastToken
  b0RankLogits := outputs.rank
  b0TopIndices := outputs.topIndices

theorem unfinishedIndices_nodup (batch : ScheduleBatch T) (chunkedReqToExclude : List Nat) :
    (batch.unfinishedIndices chunkedReqToExclude).Nodup :=
  List.nodup_range.filter _

theorem prefillBatch_ok {prefillAndDraft : DraftPrefill T} {requests : List (PrefillRequest T)}
    {batch : ScheduleBatch T} {pool final : SpecBlockKVPool}
    (ran : prefillBatch prefillAndDraft requests pool = .ok batch final) :
    ∃ info, forwardDraftExtend prefillAndDraft
        (requests.map (fun request => request.prompt.length))
        (requests.flatMap PrefillRequest.hiddenRows) (requests.flatMap PrefillRequest.prompt)
        (requests.map PrefillRequest.firstToken) (requests.map PrefillRequest.seqLen) pool =
          .ok info final ∧
      batch = ⟨requests.map PrefillRequest.req, requests.map PrefillRequest.seqLen, some info⟩ := by
  obtain ⟨info, between, extended, done⟩ := PoolM.bind_ok.mp ran
  obtain ⟨rfl, rfl⟩ := PoolM.pure_ok.mp done
  exact ⟨info, extended, rfl⟩

/-- Prefill slices the flat rows back into those of each request. -/
theorem prefillRequests_rows {prefillAndDraft : DraftPrefill T}
    {requests : List (PrefillRequest T)} {rows : List (RequestDraft T)}
    {pool final : SpecBlockKVPool}
    (ran : prefillRequests prefillAndDraft (requests.map (fun request => request.prompt.length))
      (requests.flatMap PrefillRequest.hiddenRows) (requests.flatMap PrefillRequest.prompt)
      (requests.map PrefillRequest.firstToken) pool = .ok rows final) :
    rows.length = requests.length ∧
      rows = List.zipWith (PrefillRequest.draft prefillAndDraft) requests
        (rows.map RequestDraft.crossLoc) := by
  induction requests generalizing rows pool with
  | nil =>
    obtain ⟨rfl, -⟩ := PoolM.pure_ok.mp ran
    exact ⟨rfl, rfl⟩
  | cons request requests ih =>
    have hiddenSize : request.hiddenRows.length = request.prompt.length := by
      simp [PrefillRequest.hiddenRows, request.covered]
    have ownHidden : ((request :: requests).flatMap PrefillRequest.hiddenRows).take
        request.prompt.length = request.hiddenRows := by
      rw [List.flatMap_cons, List.take_left' hiddenSize]
    have otherHidden : ((request :: requests).flatMap PrefillRequest.hiddenRows).drop
        request.prompt.length = requests.flatMap PrefillRequest.hiddenRows := by
      rw [List.flatMap_cons, List.drop_left' hiddenSize]
    have ownPrompt : ((request :: requests).flatMap PrefillRequest.prompt).take
        request.prompt.length = request.prompt := by
      rw [List.flatMap_cons, List.take_left' rfl]
    have otherPrompt : ((request :: requests).flatMap PrefillRequest.prompt).drop
        request.prompt.length = requests.flatMap PrefillRequest.prompt := by
      rw [List.flatMap_cons, List.drop_left' rfl]
    have last : request.hiddenRows.getLast? = some request.lastHidden := by
      simp [PrefillRequest.hiddenRows]
    simp only [List.map_cons] at ran
    unfold prefillRequests at ran
    rw [ownHidden, otherHidden, ownPrompt, otherPrompt, last] at ran
    obtain ⟨loc, between, allocated, rest⟩ := PoolM.bind_ok.mp ran
    obtain ⟨others, after, following, done⟩ := PoolM.bind_ok.mp rest
    obtain ⟨rfl, rfl⟩ := PoolM.pure_ok.mp done
    obtain ⟨long, sliced⟩ := ih following
    refine ⟨by simp [long], ?_⟩
    rw [List.map_cons, List.zipWith_cons_cons, ← sliced]
    rfl

/-- A prefilled batch carries the draft state of each of its requests. -/
theorem prefillBatch_rows {prefillAndDraft : DraftPrefill T}
    {requests : List (PrefillRequest T)} {batch : ScheduleBatch T} {pool final : SpecBlockKVPool}
    (ran : prefillBatch prefillAndDraft requests pool = .ok batch final) :
    ∃ rows : List (RequestDraft T), rows.length = requests.length ∧
      rows = List.zipWith (PrefillRequest.draft prefillAndDraft) requests
        (rows.map RequestDraft.crossLoc) ∧
      batch = ⟨requests.map PrefillRequest.req, requests.map PrefillRequest.seqLen,
        some (SpecBlockDraftInput.assemble rows (requests.map PrefillRequest.seqLen))⟩ := by
  obtain ⟨info, extended, rfl⟩ := prefillBatch_ok ran
  obtain ⟨rows, between, prefilled, done⟩ := PoolM.bind_ok.mp extended
  obtain ⟨rfl, rfl⟩ := PoolM.pure_ok.mp done
  obtain ⟨long, sliced⟩ := prefillRequests_rows prefilled
  exact ⟨rows, long, sliced, rfl⟩

theorem decodeBatch_ok [Zero T] {worker : SpecBlockWorker}
    {static : Nat → Nat → List (DraftRow T)} {emitDepths : List (DraftRow T) → List (List Nat)}
    {chains : List (AcceptedChain T)} {replay : Nat → RefreshReplay T}
    {batch result : ScheduleBatch T} {pool final : SpecBlockKVPool}
    (ran : decodeBatch worker static emitDepths chains replay batch pool = .ok result final) :
    ∃ info verifyInfo next, batch.specInfo = some info ∧
      draft worker static emitDepths info batch.reqs.length = .ok verifyInfo ∧
      refreshDraftState worker verifyInfo (chains.flatMap AcceptedChain.verifiedIds)
        (chains.flatMap AcceptedChain.verifiedHidden) (chains.map AcceptedChain.acceptLength)
        replay (List.zipWith (fun seqLen chain => seqLen + chain.acceptLength + 1)
          batch.seqLens chains) pool = .ok next final ∧
      result = ⟨List.zipWith (fun req chain => { req with finished := chain.finished })
          batch.reqs chains,
        List.zipWith (fun seqLen chain => seqLen + chain.acceptLength + 1) batch.seqLens chains,
        some next⟩ := by
  obtain ⟨info, between, required, rest⟩ := PoolM.bind_ok.mp ran
  obtain ⟨found, rfl⟩ := ofExcept_ok.mp required
  obtain ⟨verifyInfo, after, emitted, refreshing⟩ := PoolM.bind_ok.mp rest
  obtain ⟨drafted, rfl⟩ := ofExcept_ok.mp emitted
  obtain ⟨next, last, refreshed, done⟩ := PoolM.bind_ok.mp refreshing
  obtain ⟨rfl, rfl⟩ := PoolM.pure_ok.mp done
  refine ⟨info, verifyInfo, next, ?_, drafted, refreshed, rfl⟩
  unfold requireDraftInput at found
  split at found
  next present => exact present.trans (congrArg some (Except.ok.inj found))
  next => simp at found

theorem filterBatch_cases {chunkedReqToExclude : List Nat} {keepIndices : Option (List Nat)}
    {batch result : ScheduleBatch T} {pool final : SpecBlockKVPool} {keep : List Nat}
    (keeps : keepIndices.getD (batch.unfinishedIndices chunkedReqToExclude) = keep)
    (ran : batch.filterBatch chunkedReqToExclude keepIndices pool = .ok result final) :
    (keep = [] ∧ result = { batch with reqs := [] } ∧ final = pool) ∨
    (keep ≠ [] ∧ keep.length = batch.reqs.length ∧ result = batch ∧ final = pool) ∨
    (keep ≠ [] ∧ keep.length ≠ batch.reqs.length ∧ (∀ row ∈ keep, row < batch.reqs.length) ∧
      (∀ row ∈ keep, row < batch.seqLens.length) ∧
      ∃ specInfo, ScheduleBatch.filterSpecInfo keep batch.specInfo pool = .ok specInfo final ∧
        result = ⟨gather keep batch.reqs, gather keep batch.seqLens, specInfo⟩) := by
  unfold ScheduleBatch.filterBatch at ran
  rw [keeps] at ran
  by_cases none : keep = []
  · simp only [none, if_true] at ran
    obtain ⟨rfl, rfl⟩ := PoolM.pure_ok.mp ran
    exact .inl ⟨none, rfl, rfl⟩
  by_cases all : keep.length = batch.reqs.length
  · simp only [none, all, if_false, if_true] at ran
    obtain ⟨rfl, rfl⟩ := PoolM.pure_ok.mp ran
    exact .inr (.inl ⟨none, all, rfl, rfl⟩)
  · simp only [none, all, if_false] at ran
    obtain ⟨reqs, afterReqs, readReqs, rest⟩ := PoolM.bind_ok.mp ran
    obtain ⟨rfl, insideReqs, rfl⟩ := index_ok readReqs
    obtain ⟨seqLens, afterLens, readLens, filtering⟩ := PoolM.bind_ok.mp rest
    obtain ⟨rfl, insideLens, rfl⟩ := index_ok readLens
    obtain ⟨specInfo, last, filtered, done⟩ := PoolM.bind_ok.mp filtering
    obtain ⟨rfl, rfl⟩ := PoolM.pure_ok.mp done
    exact .inr (.inr ⟨none, all, insideReqs, insideLens, specInfo, filtered, rfl⟩)

end SpecBlock.Serving
