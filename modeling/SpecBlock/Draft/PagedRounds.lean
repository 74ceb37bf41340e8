import SpecBlock.Draft.ContextSlots
import SpecBlock.Serving.Alignment
import SpecBlock.Serving.RefreshAgreement

/-!
# Rounds of the serving loop

The serving loop keeps each request's slots in a paged pool. A round takes back the failed
block of a request that accepted nothing, allocates slots for every accepted chain, and has
the refresh plan lay the chains out in padded rows, from which one captured forward computes
the slots; a scatter writes the valid ones to the pool. Any batch of live requests takes
part in a round, others keep their slots meanwhile.

A request carries what happened to it since its prompt; no operation reads that.
-/

namespace SpecBlock.Draft

open Serving Stores

variable {V : Type} {K : Nat}

/-- A request of the serving loop: its slots in the pool, their count, the persistent
position, and its history. -/
structure PagedRequest (K : Nat) (V : Type) where
  crossLoc : List Nat
  crossCount : Nat
  crossPosition : Nat
  prompt : PromptContext K (List V)
  chains : List (AcceptedChain (List V))
  records : List (RoundRecord (List V))

/-- The pool, what its slots hold, and the live requests in no particular order. -/
structure PagedDrafts (K : Nat) (V : Type) where
  pool : SpecBlockKVPool
  kv : Nat → Option (CrossSlot (List V))
  requests : List (PagedRequest K V)

/-- Slot lists as rows of one width, with the sentinel behind them. -/
def padded (width : Nat) (locs : List (List Nat)) : Matrix2 Nat where
  width := width
  rows := locs.map (fun loc => (List.range width).map (fun lane => loc.getD lane 0))
  rectangular := by
    intro row member
    obtain ⟨loc, -, rfl⟩ := List.mem_map.mp member
    simp

/-- Slots a request keeps in a round. -/
def PagedRequest.kept (request : PagedRequest K V) (chain : AcceptedChain (List V)) : List Nat :=
  if chain.acceptLength = 0 then request.crossLoc.take (request.crossLoc.length - K)
  else request.crossLoc

/-- How many slots the request is counted with then. -/
def PagedRequest.keptCount (request : PagedRequest K V) (chain : AcceptedChain (List V)) : Nat :=
  if chain.acceptLength = 0 then request.crossCount - K else request.crossCount

/-- Slots a round granted to each request: those behind the kept ones. -/
def grantedSlots (batch : List (PagedRequest K V)) (chains : List (AcceptedChain (List V)))
    (nextLoc : List (List Nat)) : List (List Nat) :=
  (batch.zip chains).mapIdx (fun row entry =>
    (nextLoc.getD row []).drop (entry.1.kept entry.2).length)

/-- What the refresh of a batch is planned from. -/
def refreshInputs (batch : List (PagedRequest K V)) (chains : List (AcceptedChain (List V)))
    (hidden : Matrix2 V) (crossBucket acceptBucket : Nat) (granted : List (List Nat)) :
    RefreshInputs V Nat where
  flatChainTokens := chains.flatMap AcceptedChain.verifiedIds
  flatChainHidden := hidden
  acceptLengths := chains.map AcceptedChain.acceptLength
  crossPositions := batch.map (fun request => (request.crossPosition : Int))
  existingCrossLoc := padded crossBucket ((batch.zip chains).map (fun entry => entry.1.kept entry.2))
  existingCrossCounts := (batch.zip chains).map (fun entry => entry.1.keptCount entry.2)
  allocatedCrossLoc := padded (acceptBucket * K) granted

/-- A plan for the inputs, by the plain computation or by the fused kernels. -/
structure Plans [Zero V] (inputs : RefreshInputs V Nat) (K : Nat)
    (plan : SpecBlockRefreshTensorPlan V Nat) : Prop where
  checked : inputs.check K none = .ok ()
  built : plan = inputs.plainPlan K ∨ inputs.BuildsCuda K plan

/-- The slot the captured forward computes at a lane of a row of the plan. -/
def planSlot (K : Nat) (plan : SpecBlockRefreshTensorPlan V Nat) (row lane : Nat) :
    CrossSlot (List V) where
  hidden := (plan.hidden.getD row []).getD (lane / K) []
  token := (plan.tokens.getD row []).getD (lane / K) 0
  slot := lane % K
  position := (plan.posIds.getD row []).getD lane 0

/-- Stores of `set_kv_padded`: the valid lanes of every row. -/
def setKvPadded (K maxSlots : Nat) (plan : SpecBlockRefreshTensorPlan V Nat)
    (granted : List (List Nat)) : List (Nat × Option (CrossSlot (List V))) :=
  (List.range granted.length).flatMap (fun row =>
    ((List.range maxSlots).filter (fun lane => lane < plan.newCrossValidSlots.getD row 0)).map
      (fun lane => ((padded maxSlots granted).cell 0 row lane, some (planSlot K plan row lane))))

/-- A request after a round. -/
def PagedRequest.advanced (next : SpecBlockDraftInput (List V))
    (kv : Nat → Option (CrossSlot (List V))) (row : Nat) (request : PagedRequest K V)
    (chain : AcceptedChain (List V)) : PagedRequest K V :=
  let crossLoc := next.crossLoc.getD row []
  let crossPosition := next.crossPosition.getD row 0
  { request with
    crossLoc := crossLoc
    crossCount := next.crossCount.getD row 0
    crossPosition := crossPosition
    chains := request.chains ++ [chain]
    records := request.records ++ [{
      appended := (crossLoc.drop (request.kept chain).length).filterMap kv
      cachedSlots := next.crossCount.getD row 0
      draftPosition := crossPosition
      block2Position := (crossPosition : Int) - 1 }] }

/-- Steps of the serving loop: a drafted prompt gets slots, a batch decodes a round, a request
gives its slots back. -/
inductive PagedStep [Zero V] (worker : SpecBlockWorker) :
    PagedDrafts worker.K V → PagedDrafts worker.K V → Prop
  | prefill (state : PagedDrafts worker.K V) (prompt : PromptContext worker.K (List V))
      (loc : List Nat) (final : SpecBlockKVPool)
      (allocated : SpecBlockKVPool.alloc prompt.slots.length state.pool = .ok loc final)
      (kv : Nat → Option (CrossSlot (List V)))
      (written : Outcome state.kv (loc.zip (prompt.slots.map some)) kv) :
      PagedStep worker state {
        pool := final
        kv := kv
        requests :=
          ⟨loc, prompt.slots.length, prompt.draftPosition, prompt, [], []⟩ :: state.requests }
  | refresh (state : PagedDrafts worker.K V) (batch rest : List (PagedRequest worker.K V))
      (live : state.requests.Perm (batch ++ rest)) (chains : List (AcceptedChain (List V)))
      (each : chains.length = batch.length) (info : SpecBlockVerifyInput (List V))
      (sameLoc : info.crossLoc = batch.map PagedRequest.crossLoc)
      (sameCount : info.crossCount = batch.map PagedRequest.crossCount)
      (samePosition : info.crossPosition = batch.map PagedRequest.crossPosition)
      (replay : Nat → RefreshReplay (List V)) (seqLens : List Nat)
      (next : SpecBlockDraftInput (List V)) (final : SpecBlockKVPool)
      (ran : refreshDraftState worker info (chains.flatMap AcceptedChain.verifiedIds)
        (chains.flatMap AcceptedChain.verifiedHidden) (chains.map AcceptedChain.acceptLength)
        replay seqLens state.pool = .ok next final)
      (hidden : Matrix2 V) (sameHidden : hidden.rows = chains.flatMap AcceptedChain.verifiedHidden)
      (crossBucket acceptBucket : Nat)
      (bucket : (chains.map (fun chain => chain.acceptLength + 1)).max?.bind
        (resolveBucket worker.refreshAcceptBuckets) = some acceptBucket)
      (plan : SpecBlockRefreshTensorPlan V Nat)
      (planned : Plans (refreshInputs batch chains hidden crossBucket acceptBucket
        (grantedSlots batch chains next.crossLoc)) worker.K plan)
      (kv : Nat → Option (CrossSlot (List V)))
      (written : Outcome state.kv (setKvPadded worker.K (acceptBucket * worker.K) plan
        (grantedSlots batch chains next.crossLoc)) kv) :
      PagedStep worker state {
        pool := final
        kv := kv
        requests := (batch.zip chains).mapIdx (fun row entry =>
          entry.1.advanced next kv row entry.2) ++ rest }
  | release (state : PagedDrafts worker.K V) (request : PagedRequest worker.K V)
      (rest : List (PagedRequest worker.K V)) (live : state.requests.Perm (request :: rest))
      (final : SpecBlockKVPool)
      (released : SpecBlockKVPool.release request.crossLoc state.pool = .ok () final) :
      PagedStep worker state { state with pool := final, requests := rest }

/-- Runs that start with a new pool and no requests. -/
def pagedSystem [Zero V] (worker : SpecBlockWorker) : System (PagedDrafts worker.K V) where
  start := fun state => ∃ initialPoolSize maxPoolSize,
    SpecBlockKVPool.create initialPoolSize maxPoolSize = .ok state.pool ∧ state.requests = []
  step := PagedStep worker

/-- A request's context after its rounds. -/
def PagedRequest.context (request : PagedRequest K V) : DraftContext (List V) :=
  request.prompt.rounds K request.chains

/-- What a round of the serving loop leaves behind: block 2 is seeded one position before the
persistent one, whatever was accepted. -/
def DraftContext.servedRecord {H : Type} (K : Nat) (context : DraftContext H)
    (chain : AcceptedChain H) : RoundRecord H :=
  { context.record K chain with
    block2Position := ((context.refresh K chain).draftPosition : Int) - 1 }

/-- What rounds of the serving loop leave behind. -/
def DraftContext.servedRecords {H : Type} (K : Nat) :
    DraftContext H → List (AcceptedChain H) → List (RoundRecord H)
  | _, [] => []
  | context, chain :: chains =>
    context.servedRecord K chain :: servedRecords K (context.refresh K chain) chains

/-- A request's slots hold its context, and the rounds left what the serving loop leaves. -/
structure RequestTracks (kv : Nat → Option (CrossSlot (List V))) (request : PagedRequest K V) :
    Prop where
  holds : request.crossLoc.map kv = request.context.slots.map some
  counted : request.crossCount = request.crossLoc.length
  position : request.crossPosition = request.context.draftPosition
  records : request.records = request.prompt.servedRecords K request.chains

/-- The pool is whole and every request's slots hold its context. -/
structure PagedTracks (state : PagedDrafts K V) : Prop where
  whole : Whole state.pool.slots (state.requests.map PagedRequest.crossLoc)
  requests : ∀ request ∈ state.requests, RequestTracks state.kv request

end SpecBlock.Draft
