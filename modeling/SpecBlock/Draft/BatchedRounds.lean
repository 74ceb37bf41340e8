import SpecBlock.Draft.RaggedForward
import SpecBlock.Draft.ScalarRounds
import SpecBlock.Foundation.Rows
import SpecBlock.Foundation.Runs
import SpecBlock.Foundation.Stores

/-!
# Rounds of the batched loop

Each round feeds the accepted chains of all active requests in one ragged forward, after a
rollback of the rows that accepted nothing. Between rounds the cache is compacted to the
requests that go on. Whatever the batch, each request's row keeps the request's own
context.

A request carries what happened to it since its prompt; no operation reads that.
-/

namespace SpecBlock.Draft

open Serving Batch Rows

variable {H : Type} {K : Nat}

/-- A request of the batched loop: its draft position, and its history. -/
structure BatchedRequest (K : Nat) (H : Type) where
  draftPosition : Nat
  prompt : PromptContext K H
  chains : List (AcceptedChain H)
  records : List (RoundRecord H)

/-- The draft cache and the active requests, row by row. -/
structure BatchedDrafts (K : Nat) (H : Type) where
  cache : DraftBatchCache (CrossSlot H)
  requests : List (BatchedRequest K H)

/-- What the requests of a round bring to the draft. -/
def draftRequests (requests : List (BatchedRequest K H)) (chains : List (AcceptedChain H)) :
    List (DraftRequest H) :=
  List.zipWith (fun request chain => ⟨request.draftPosition, chain⟩) requests chains

/-- The slots the forward of a round computes for a row's valid positions. -/
def rowAppended [Inhabited H] (requests : List (DraftRequest H)) (row : Nat) : List (CrossSlot H) :=
  (List.range ((requests.map DraftRequest.validLength).getD row 0 * K)).map
    (raggedSlots K
      (paddedRows default (requests.map DraftRequest.hiddenRow) (requests.map DraftRequest.validLength))
      (paddedRows 0 (requests.map DraftRequest.tokenRow) (requests.map DraftRequest.validLength))
      (requests.map DraftRequest.startPosition) row)

/-- A request after a round. -/
def BatchedRequest.advanced [Inhabited H] (following : DraftBatchCache (CrossSlot H))
    (requests : List (DraftRequest H)) (positions : List Nat) (treePositions : List Int)
    (row : Nat) (request : BatchedRequest K H) (chain : AcceptedChain H) : BatchedRequest K H :=
  { request with
    draftPosition := positions.getD row 0
    chains := request.chains ++ [chain]
    records := request.records ++ [{
      appended := rowAppended (K := K) requests row
      cachedSlots := following.lengthsHost.getD row 0
      draftPosition := positions.getD row 0
      block2Position := treePositions.getD row 0 }] }

/-- Steps of the batched loop: keep some rows, or decode a round. -/
inductive BatchedStep [Inhabited H] : BatchedDrafts K H → BatchedDrafts K H → Prop
  | compact (state : BatchedDrafts K H) (rowIndices : List Nat)
      (inside : ∀ index ∈ rowIndices, index < state.requests.length) :
      BatchedStep state {
        cache := state.cache.compactRows rowIndices
        requests := gather rowIndices state.requests }
  | round (state : BatchedDrafts K H) (chains : List (AcceptedChain H))
      (each : chains.length = state.requests.length) (following : DraftBatchCache (CrossSlot H))
      (positions : List Nat) (treePositions : List Int)
      (ran : buildNextDraftsBatched K state.cache (draftRequests state.requests chains) =
        .ok (following, positions, treePositions)) :
      BatchedStep state {
        cache := following
        requests := (state.requests.zip chains).mapIdx (fun row entry =>
          entry.1.advanced following (draftRequests state.requests chains) positions treePositions
            row entry.2) }

/-- Runs that start with the prompts drafted. -/
def batchedSystem (K : Nat) (H : Type) [Inhabited H] : System (BatchedDrafts K H) where
  start := fun state => state.cache.Consistent ∧
    state.cache.lengthsHost.length = state.requests.length ∧
    ∀ row request, state.requests[row]? = some request →
      state.cache.RowHolds row request.prompt.slots ∧
        request.draftPosition = request.prompt.draftPosition ∧ request.chains = [] ∧
        request.records = []
  step := BatchedStep

/-- A batch of one drafted prompt, in a layer with room for some more slots. -/
def soloBatch (prompt : PromptContext K H) (room : Nat) : BatchedDrafts K H where
  cache := {
    layers := [⟨some (fun _ column => prompt.slots[column]?), prompt.slots.length + room, 0,
      prompt.slots.length + room⟩]
    lengthsHost := [prompt.slots.length]
    lengths := 0
    vectors := fun _ => [prompt.slots.length] }
  requests := [⟨prompt.draftPosition, prompt, [], []⟩]

theorem soloBatch_start [Inhabited H] (prompt : PromptContext K H) (room : Nat) :
    (batchedSystem K H).start (soloBatch prompt room) := by
  refine ⟨⟨?_, rfl, ?_⟩, rfl, ?_⟩
  · intro layer member
    rw [List.mem_singleton.mp member]
    rfl
  · intro layer member
    rw [List.mem_singleton.mp member]
    exact ⟨fun empty => by simp at empty, fun _ => Nat.le_refl _⟩
  · intro row request listed
    obtain ⟨rfl, rfl⟩ : row = 0 ∧ request = ⟨prompt.draftPosition, prompt, [], []⟩ := by
      cases row with
      | zero => exact ⟨rfl, (Option.some.inj listed).symm⟩
      | succ row => simp [soloBatch] at listed
    refine ⟨⟨rfl, ?_⟩, rfl, rfl, rfl⟩
    intro layer member
    rw [List.mem_singleton.mp member]
    exact ⟨⟨rfl, fun _ _ => rfl⟩, Nat.le_add_right _ _⟩

/-- A request's context after its rounds. -/
def BatchedRequest.context (request : BatchedRequest K H) : DraftContext H :=
  request.prompt.rounds K request.chains

/-- A row keeps its request's context, and the rounds left what they should. -/
structure RowTracks (cache : DraftBatchCache (CrossSlot H)) (row : Nat)
    (request : BatchedRequest K H) : Prop where
  holds : cache.RowHolds row request.context.slots
  position : request.draftPosition = request.context.draftPosition
  records : request.records = request.prompt.records K request.chains

/-- Every row keeps its request's context. -/
structure BatchTracks (state : BatchedDrafts K H) : Prop where
  consistent : state.cache.Consistent
  sized : state.cache.lengthsHost.length = state.requests.length
  rows : ∀ row request, state.requests[row]? = some request → RowTracks state.cache row request

namespace DraftRequest

/-- A chain's hidden rows and tokens, the valid length and the start. -/
theorem fed_eq (request : DraftRequest H) (context : DraftContext H)
    (same : request.draftPosition = context.draftPosition) :
    request.hiddenRow = request.chain.verifiedHidden ∧ request.tokenRow = chainTokens request.chain ∧
      request.validLength = request.chain.acceptLength + 1 ∧
      request.startPosition = context.startPosition request.chain := by
  unfold hiddenRow tokenRow validLength startPosition DraftContext.startPosition
  by_cases none : request.chain.acceptLength = 0
  · obtain ⟨hidden, tokens⟩ := acceptLength_zero (show request.chain.tokens.length = 0 from none)
    simp [none, hidden, tokens, same]
  · have some : request.chain.tokens.length ≠ 0 := none
    rw [if_neg none, if_neg none, if_neg none, if_neg none, if_neg none, ← batchTokens_eq some, same]
    exact ⟨rfl, rfl, rfl, rfl⟩

theorem next_eq (request : DraftRequest H) (context : DraftContext H)
    (same : request.draftPosition = context.draftPosition) :
    request.nextPosition = (context.refresh K request.chain).draftPosition ∧
      request.treePosition = (context.record K request.chain).block2Position := by
  obtain ⟨-, -, valid, start⟩ := fed_eq request context same
  have seeded : (context.record K request.chain).block2Position =
      context.startPosition request.chain + request.chain.acceptLength := rfl
  unfold treePosition nextPosition
  rw [seeded, valid, start]
  unfold DraftContext.startPosition
  by_cases none : request.chain.acceptLength = 0
  · have kept : (context.refresh K request.chain).draftPosition = context.draftPosition :=
      if_pos none
    simp [none, kept, same]
  · have moved : (context.refresh K request.chain).draftPosition =
        context.draftPosition + 1 + (request.chain.acceptLength + 1) := if_neg none
    have some : 0 < request.chain.acceptLength := by omega
    rw [moved, if_neg none, if_pos some, if_neg none]
    refine ⟨rfl, ?_⟩
    push_cast
    ring

end DraftRequest

/-- The valid slots of a padded row are the slots of its chain. -/
theorem raggedSlots_chain [Inhabited H] {hiddenRows : List (List H)} {tokenRows : List (List Nat)}
    {startPositions validLengths : List Nat} {row start : Nat} {hidden : List H}
    {tokens : List Nat} (atHidden : hiddenRows[row]? = some hidden)
    (atTokens : tokenRows[row]? = some tokens) (atStart : startPositions[row]? = some start)
    (atValid : validLengths[row]? = some hidden.length) (paired : tokens.length = hidden.length) :
    (List.range (validLengths.getD row 0 * K)).map (raggedSlots K
        (paddedRows default hiddenRows validLengths) (paddedRows 0 tokenRows validLengths)
        startPositions row) =
      chainSlots K start hidden tokens := by
  have valid : validLengths.getD row 0 = hidden.length := by
    simp [List.getD_eq_getElem?_getD, atValid]
  rw [valid]
  apply map_eq_chainSlots _ _ _ paired
  intro column slot first token small readHidden readToken
  obtain ⟨inside, rfl⟩ := List.getElem?_eq_some_iff.mp readHidden
  simp [raggedSlots, paddedRows, Stores.address_div small, Stores.address_mod small, atHidden,
    atTokens, atStart, atValid, inside, readToken, List.getD_eq_getElem?_getD, add_right_comm]

section round

variable {cache following : DraftBatchCache (CrossSlot H)}
  {requests : List (DraftRequest H)} {positions : List Nat} {treePositions : List Int}

theorem mem_rejectedRows {row : Nat} {request : DraftRequest H}
    (listed : requests[row]? = some request) :
    row ∈ rejectedRows requests ↔ request.chain.acceptLength = 0 := by
  have inside : row < requests.length := (List.getElem?_eq_some_iff.mp listed).1
  rw [rejectedRows, List.mem_filter, List.mem_range, listed]
  simp [inside]

theorem rollbackRejected_ok (consistent : cache.Consistent)
    (ran : rollbackRejected K cache requests = .ok following) :
    following.Consistent ∧ following.lengthsHost.length = cache.lengthsHost.length ∧
      following.layers.map DraftLayer.maxCacheLen = cache.layers.map DraftLayer.maxCacheLen ∧
      ∀ row values, cache.RowHolds row values → following.RowHolds row
        (if row ∈ rejectedRows requests then values.take (values.length - K) else values) := by
  have distinct : (rejectedRows requests).Nodup := List.nodup_range.filter _
  unfold rollbackRejected at ran
  split at ran
  next empty =>
    obtain rfl := Except.ok.inj ran
    refine ⟨consistent, rfl, rfl, fun row values holds => ?_⟩
    simpa [empty] using holds
  next some => exact DraftBatchCache.rollbackRows_ok consistent distinct ran

/-- A round that succeeds: the rows that accepted nothing lose a block, then every row gets
the slots of its valid positions. -/
theorem buildNextDraftsBatched_ok [Inhabited H] (consistent : cache.Consistent)
    (ran : buildNextDraftsBatched K cache requests = .ok (following, positions, treePositions)) :
    positions = requests.map DraftRequest.nextPosition ∧
      treePositions = requests.map DraftRequest.treePosition ∧ following.Consistent ∧
      cache.lengthsHost.length = requests.length ∧
      following.lengthsHost.length = requests.length ∧
      ∀ row request values, requests[row]? = some request → cache.RowHolds row values →
        following.RowHolds row
          ((if request.chain.acceptLength = 0 then values.take (values.length - K) else values) ++
            rowAppended (K := K) requests row) := by
  unfold buildNextDraftsBatched at ran
  cases rolled : rollbackRejected K cache requests with
  | error reason =>
    rw [rolled] at ran
    cases ran
  | ok between =>
    rw [rolled] at ran
    obtain ⟨settled, sized, -, rows⟩ := rollbackRejected_ok consistent rolled
    cases forwarded : runRaggedDraftForward K between (requests.map DraftRequest.hiddenRow)
        (requests.map DraftRequest.tokenRow) (requests.map DraftRequest.startPosition)
        (requests.map DraftRequest.validLength) with
    | error reason =>
      simp only [forwarded, bind, Except.bind] at ran
      cases ran
    | ok final =>
      simp only [forwarded, bind, Except.bind] at ran
      obtain ⟨rfl, rfl, rfl⟩ : final = following ∧
          requests.map DraftRequest.nextPosition = positions ∧
          requests.map DraftRequest.treePosition = treePositions := by
        simpa [pure, Except.pure] using ran
      have forward := raggedForward_ok settled forwarded
      have activeSized : between.lengthsHost.length = requests.length := by
        have checks := forwarded
        unfold runRaggedDraftForward raggedForward at checks
        simp only [bind, Except.bind] at checks
        split at checks
        · cases checks
        next done passed =>
          have matching := (checkRagged_ok.mp passed).1
          have sizes := of_decide_eq_true matching
          simpa [DraftBatchCache.activeBatchSize] using sizes.2.2.2
      refine ⟨rfl, rfl, forward.consistent, by omega, ?_, ?_⟩
      · rw [forward.lengths, List.length_zipWith, activeSized, List.length_map, Nat.min_self]
      · intro row request values listed holds
        have appended := forward.rows row _ (rows row values holds)
        simp only [mem_rejectedRows listed] at appended
        exact appended

end round

theorem round_tracks [Inhabited H] {state : BatchedDrafts K H} {chains : List (AcceptedChain H)}
    {following : DraftBatchCache (CrossSlot H)} {positions : List Nat} {treePositions : List Int}
    (tracks : BatchTracks state) (each : chains.length = state.requests.length)
    (ran : buildNextDraftsBatched K state.cache (draftRequests state.requests chains) =
      .ok (following, positions, treePositions)) :
    BatchTracks {
      cache := following
      requests := (state.requests.zip chains).mapIdx (fun row entry =>
        entry.1.advanced following (draftRequests state.requests chains) positions treePositions
          row entry.2) } := by
  obtain ⟨rfl, rfl, consistent, -, sized, rows⟩ := buildNextDraftsBatched_ok tracks.consistent ran
  have size : (draftRequests state.requests chains).length = state.requests.length := by
    simp [draftRequests, each]
  refine ⟨consistent, by simp [sized, size, each], ?_⟩
  intro row request listed
  simp only [List.getElem?_mapIdx, Option.map_eq_some_iff, List.getElem?_zip_eq_some] at listed
  obtain ⟨⟨old, chain⟩, ⟨atOld, atChain⟩, rfl⟩ := listed
  dsimp only at atOld atChain
  obtain ⟨holds, position, records⟩ := tracks.rows row old atOld
  have fed : (draftRequests state.requests chains)[row]? = some ⟨old.draftPosition, chain⟩ := by
    simp [draftRequests, List.getElem?_zipWith, atOld, atChain]
  obtain ⟨hiddenEq, tokenEq, validEq, startEq⟩ :=
    DraftRequest.fed_eq ⟨old.draftPosition, chain⟩ old.context position
  obtain ⟨nextEq, treeEq⟩ :=
    DraftRequest.next_eq (K := K) ⟨old.draftPosition, chain⟩ old.context position
  have appended : rowAppended (K := K) (draftRequests state.requests chains) row =
      old.context.appended K chain := by
    unfold rowAppended DraftContext.appended
    apply raggedSlots_chain
    · simp [fed, hiddenEq]
    · simp [fed, tokenEq]
    · simp [fed, startEq]
    · simp [fed, validEq, verifiedHidden_length]
    · exact chainTokens_length chain
  have next := rows row _ _ fed holds
  rw [appended] at next
  have grown : (old.advanced following (draftRequests state.requests chains)
      ((draftRequests state.requests chains).map DraftRequest.nextPosition)
      ((draftRequests state.requests chains).map DraftRequest.treePosition) row chain).context =
        old.context.refresh K chain := DraftContext.rounds_concat old.chains
  have readPosition : ((draftRequests state.requests chains).map DraftRequest.nextPosition).getD
      row 0 = (old.context.refresh K chain).draftPosition := by
    simp [List.getD_eq_getElem?_getD, fed, nextEq]
  have readTree : ((draftRequests state.requests chains).map DraftRequest.treePosition).getD row 0 =
      (old.context.record K chain).block2Position := by
    simp [List.getD_eq_getElem?_getD, fed, treeEq]
  refine ⟨grown ▸ next, ?_, ?_⟩
  · rw [grown]
    exact readPosition
  · show old.records ++ [_] = old.prompt.records K (old.chains ++ [chain])
    rw [DraftContext.records_concat, records]
    congr 2
    have counted : following.lengthsHost.getD row 0 = (old.context.refresh K chain).slots.length := by
      simp [List.getD_eq_getElem?_getD, next.counted, DraftContext.refresh, DraftContext.kept]
    rw [appended, readPosition, readTree, counted]
    rfl

/-- Every run of the batched loop keeps each request's context. -/
theorem batchedSystem_tracks [Inhabited H] {state : BatchedDrafts K H}
    (reached : (batchedSystem K H).Reachable state) : BatchTracks state := by
  refine reached.invariant BatchTracks ?_ ?_
  · rintro state ⟨consistent, sized, rows⟩
    refine ⟨consistent, sized, fun row request listed => ?_⟩
    obtain ⟨holds, position, noChains, noRecords⟩ := rows row request listed
    have same : request.context = request.prompt.toDraftContext := by
      rw [BatchedRequest.context, noChains, DraftContext.rounds]
    refine ⟨same ▸ holds, same ▸ position, ?_⟩
    rw [noRecords, noChains, DraftContext.records]
  · intro state following tracks taken
    cases taken with
    | compact rowIndices inside =>
      obtain ⟨consistent, sized, -, rows⟩ := DraftBatchCache.compactRows_ok tracks.consistent
        (fun index (member : index ∈ rowIndices) =>
          Nat.lt_of_lt_of_eq (inside index member) tracks.sized.symm)
      refine ⟨consistent, sized.trans (gather_length rowIndices _ inside).symm, ?_⟩
      intro row request listed
      rw [gather_getElem? rowIndices _ inside, Option.bind_eq_some_iff] at listed
      obtain ⟨index, atIndex, atRequest⟩ := listed
      obtain ⟨holds, position, records⟩ := tracks.rows index request atRequest
      exact ⟨rows row index _ atIndex holds, position, records⟩
    | round chains each following positions treePositions ran => exact round_tracks tracks each ran

end SpecBlock.Draft
