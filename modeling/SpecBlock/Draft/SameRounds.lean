import SpecBlock.Draft.BatchedRounds
import SpecBlock.Draft.PagedRun

/-!
# The three loops side by side

The single-request loop, the batched loop and the serving loop are run with the same prompt
and the same accepted chains. Their caches hold the same slots after every round, and their
draft positions agree. The serving loop seeds block 2 one position before its persistent
position, also after a round that accepted nothing, where the block was drafted at that very
position: there it is one position behind the other two.
-/

namespace SpecBlock.Draft

open Serving Stores

variable {V H : Type}

/-- A round's record without the seed of block 2. -/
def RoundRecord.unseeded (record : RoundRecord H) : List (CrossSlot H) × Nat × Nat :=
  (record.appended, record.cachedSlots, record.draftPosition)

/-- The serving loop's seed is right exactly where something was accepted. -/
theorem servedRecord_eq {K : Nat} (context : DraftContext H) (chain : AcceptedChain H) :
    context.servedRecord K chain = context.record K chain ↔ chain.acceptLength ≠ 0 := by
  have seeds : context.servedRecord K chain = context.record K chain ↔
      ((context.refresh K chain).draftPosition : Int) - 1 =
        context.startPosition chain + chain.acceptLength := by
    constructor
    · intro same
      exact congrArg RoundRecord.block2Position same
    · intro same
      exact congrArg (fun seed => { context.record K chain with block2Position := seed }) same
  rw [seeds]
  unfold DraftContext.startPosition
  by_cases none : chain.acceptLength = 0
  · have kept : (context.refresh K chain).draftPosition = context.draftPosition := if_pos none
    rw [kept, if_pos none]
    omega
  · have moved : (context.refresh K chain).draftPosition =
        context.draftPosition + 1 + (chain.acceptLength + 1) := if_neg none
    rw [moved, if_neg none]
    push_cast
    omega

/-- The serving loop's records are the right ones exactly where every round accepted something. -/
theorem servedRecords_eq {K : Nat} (context : DraftContext H) (chains : List (AcceptedChain H)) :
    context.servedRecords K chains = context.records K chains ↔
      ∀ chain ∈ chains, chain.acceptLength ≠ 0 := by
  induction chains generalizing context with
  | nil => simp [DraftContext.servedRecords, DraftContext.records]
  | cons chain chains ih =>
    rw [DraftContext.servedRecords, DraftContext.records, List.cons_eq_cons, servedRecord_eq,
      ih, List.forall_mem_cons]

/-- But for the seeds the serving loop's records are the right ones. -/
theorem servedRecords_unseeded {K : Nat} (context : DraftContext H)
    (chains : List (AcceptedChain H)) :
    (context.servedRecords K chains).map RoundRecord.unseeded =
      (context.records K chains).map RoundRecord.unseeded := by
  induction chains generalizing context with
  | nil => rfl
  | cons chain chains ih =>
    exact congrArg ((context.record K chain).unseeded :: ·) (ih _)

/-- The three loops, run with the same prompt and chains, keep the same slots and positions and
append the same slots in every round. They also seed block 2 alike exactly if every round
accepted something. -/
theorem loops_agree [Zero V] (worker : SpecBlockWorker) (prompt : PromptContext worker.K (List V))
    (chains : List (AcceptedChain (List V))) (scalar : ScalarDraft (List V))
    (scalarRecords : List (RoundRecord (List V)))
    (ran : (ScalarDraft.start prompt.toDraftContext).rounds worker.K chains =
      (scalar, scalarRecords))
    (batched : BatchedDrafts worker.K (List V))
    (batchedRun : (batchedSystem worker.K (List V)).Reachable batched) (row : Nat)
    (batchedRequest : BatchedRequest worker.K (List V))
    (inBatch : batched.requests[row]? = some batchedRequest)
    (batchedHistory : batchedRequest.prompt = prompt ∧ batchedRequest.chains = chains)
    (paged : PagedDrafts worker.K V) (pagedRun : (pagedSystem worker).Reachable paged)
    (pagedRequest : PagedRequest worker.K V) (live : pagedRequest ∈ paged.requests)
    (pagedHistory : pagedRequest.prompt = prompt ∧ pagedRequest.chains = chains) :
    (∃ slots, scalar.cache.Holds slots ∧ batched.cache.RowHolds row slots ∧
      pagedRequest.crossLoc.map paged.kv = slots.map some ∧
      pagedRequest.crossCount = slots.length) ∧
    batchedRequest.draftPosition = scalar.draftPosition ∧
    pagedRequest.crossPosition = scalar.draftPosition ∧
    batchedRequest.records.map RoundRecord.unseeded = scalarRecords.map RoundRecord.unseeded ∧
    pagedRequest.records.map RoundRecord.unseeded = scalarRecords.map RoundRecord.unseeded ∧
    ((batchedRequest.records = scalarRecords ∧ pagedRequest.records = scalarRecords) ↔
      ∀ chain ∈ chains, chain.acceptLength ≠ 0) := by
  obtain ⟨represents, left⟩ := ScalarDraft.rounds_refresh
    (ScalarDraft.start_represents prompt.toDraftContext) prompt.drafted chains
  rw [ran] at represents left
  obtain ⟨rowHolds, rowPosition, rowRecords⟩ :=
    (batchedSystem_tracks batchedRun).rows row batchedRequest inBatch
  obtain ⟨pagedHolds, counted, pagedPosition, pagedRecords⟩ :=
    (pagedSystem_tracks pagedRun).requests pagedRequest live
  obtain ⟨rfl, rfl⟩ := batchedHistory
  obtain ⟨samePrompt, sameChains⟩ := pagedHistory
  have context : pagedRequest.context = batchedRequest.context := by
    rw [PagedRequest.context, samePrompt, sameChains, BatchedRequest.context]
  rw [samePrompt, sameChains] at pagedRecords
  rw [context] at pagedHolds pagedPosition
  dsimp only at left
  refine ⟨⟨_, represents.holds, rowHolds, pagedHolds, ?_⟩, ?_, ?_, ?_, ?_, ?_⟩
  · rw [counted, ← List.length_map (f := paged.kv), pagedHolds, List.length_map]
    rfl
  · exact rowPosition.trans represents.position.symm
  · exact pagedPosition.trans represents.position.symm
  · rw [rowRecords, left]
  · rw [pagedRecords, left, servedRecords_unseeded]
  · rw [rowRecords, pagedRecords, left]
    exact (and_iff_right rfl).trans (servedRecords_eq _ _)

/-- A prompt of one token: its entry and the drafted one. -/
def oneTokenPrompt : PromptContext smallWorker.K (List Nat) where
  slots := chainSlots 2 0 [[5], [5]] [7, 7]
  draftPosition := 2
  drafted := by decide

/-- A chain of one accepted token. -/
def acceptedOne : AcceptedChain (List Nat) := ⟨[8], 9, [[6]], [4], false, rfl⟩

/-- A chain that accepted nothing. -/
def acceptedNone : AcceptedChain (List Nat) := ⟨[], 9, [], [6], false, rfl⟩

/-- A new pool and no request. -/
def emptyPaged : PagedDrafts smallWorker.K Nat where
  pool := ⟨12, 12, List.range' 1 11, 0, 0, false, 0⟩
  kv := fun _ => none
  requests := []

/-- The request of that prompt as the serving loop verifies it. -/
def oneTokenInfo : SpecBlockVerifyInput (List Nat) where
  positions := []
  hiddenStates := none
  verifiedId := none
  crossLoc := [[1, 2, 3, 4]]
  crossCount := [4]
  crossPosition := [2]
  tttK := [[]]
  tttV := [[]]
  kvPool := true

/-- That request before its first round. -/
def oneTokenRequest : PagedRequest smallWorker.K Nat :=
  ⟨[1, 2, 3, 4], 4, 2, oneTokenPrompt, [], []⟩

/-- A replay that returns nothing of interest. -/
def emptyReplay : Nat → RefreshReplay (List Nat) := fun _ => ⟨[], [], [], [], [], []⟩

/-- The serving loop decodes a round of the prompt with either chain. -/
theorem paged_oneRound (chain : AcceptedChain (List Nat))
    (either : chain = acceptedOne ∨ chain = acceptedNone) :
    ∃ (paged : PagedDrafts smallWorker.K Nat) (request : PagedRequest smallWorker.K Nat),
      (pagedSystem smallWorker).Reachable paged ∧ request ∈ paged.requests ∧
        request.prompt = oneTokenPrompt ∧ request.chains = [chain] := by
  have created : (pagedSystem (V := Nat) smallWorker).Reachable emptyPaged :=
    .start _ ⟨12, 12, rfl, rfl⟩
  have prefilled := created.step _ _ (.prefill _ oneTokenPrompt _ _ rfl _ (.listed _ _))
  rcases either with rfl | rfl
  · have decoded := prefilled.step _ _ (.refresh _ [oneTokenRequest] [] (List.Perm.refl _) [acceptedOne] rfl
      oneTokenInfo rfl rfl rfl emptyReplay [] _ _ rfl ⟨1, [[6], [4]], by decide⟩ rfl 4 3 rfl _
      ⟨rfl, .inl rfl⟩ _ (.listed _ _))
    exact ⟨_, _, decoded, List.mem_singleton.mpr rfl, rfl, rfl⟩
  · have decoded := prefilled.step _ _ (.refresh _ [oneTokenRequest] [] (List.Perm.refl _) [acceptedNone] rfl
      oneTokenInfo rfl rfl rfl emptyReplay [] _ _ rfl ⟨1, [[6]], by decide⟩ rfl 4 3 rfl _
      ⟨rfl, .inl rfl⟩ _ (.listed _ _))
    exact ⟨_, _, decoded, List.mem_singleton.mpr rfl, rfl, rfl⟩

/-- The three loops after a round that accepted one token. -/
theorem loops_agree_accepted :
    ∃ (scalarRecords : List (RoundRecord (List Nat)))
      (batchedRequest : BatchedRequest smallWorker.K (List Nat))
      (pagedRequest : PagedRequest smallWorker.K Nat),
      batchedRequest.records = scalarRecords ∧ pagedRequest.records = scalarRecords ∧
        scalarRecords.length = 1 := by
  have started := System.Reachable.start _ (soloBatch_start oneTokenPrompt 8)
  have decoded := started.step _ _ (.round _ [acceptedOne] rfl _ _ _ rfl)
  obtain ⟨paged, request, served, live, samePrompt, sameChains⟩ :=
    paged_oneRound acceptedOne (.inl rfl)
  have agree := loops_agree smallWorker oneTokenPrompt [acceptedOne] _ _ rfl _ decoded 0 _ rfl
    ⟨rfl, rfl⟩ paged served request live ⟨samePrompt, sameChains⟩
  obtain ⟨-, -, -, -, -, seeded⟩ := agree
  exact ⟨_, _, request, (seeded.mpr (by decide)).1, (seeded.mpr (by decide)).2, rfl⟩

/-- After a round that accepted nothing the serving loop seeds block 2 one position earlier. -/
theorem loops_disagree_rejected :
    ∃ (paged : PagedDrafts smallWorker.K Nat) (request : PagedRequest smallWorker.K Nat),
      (pagedSystem smallWorker).Reachable paged ∧ request ∈ paged.requests ∧
        request.prompt = oneTokenPrompt ∧ request.chains = [acceptedNone] ∧
        request.records.map RoundRecord.block2Position = [1] ∧
        ((ScalarDraft.start oneTokenPrompt.toDraftContext).rounds smallWorker.K
          [acceptedNone]).2.map RoundRecord.block2Position = [2] := by
  obtain ⟨paged, request, served, live, samePrompt, sameChains⟩ :=
    paged_oneRound acceptedNone (.inr rfl)
  refine ⟨paged, request, served, live, samePrompt, sameChains, ?_, by decide⟩
  rw [((pagedSystem_tracks served).requests request live).records, samePrompt, sameChains]
  decide

end SpecBlock.Draft
