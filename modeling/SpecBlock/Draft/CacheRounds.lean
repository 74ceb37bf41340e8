import SpecBlock.Draft.CacheBounds

/-!
# Capacities over whole runs

Each operation of a round passes its checks: the staged trees lie behind the longest prefix and
a reserve no larger than the tree, an accepted path visits each node of its tree once and so
fits the reserve, and the draft rows keep to the tokens of their requests.

A run of the loop therefore reaches no error, never outgrows the storage either cache was
declared with, and keeps the lengths of the draft cache the same on the host, on the device
and in every layer.
-/

namespace SpecBlock.Draft

open Serving Batch Rows

variable {E H : Type} {settings : Settings} {models : Models} {prompts : List (List Nat)}
  {maxTreeWidth : Nat} {state : LoopState E H}

/-- A request that goes on has its prefix inside the committed capacity. -/
theorem ActiveRequest.Within.prefix_lt {request : ActiveRequest}
    (within : request.Within settings prompts) :
    request.targetPrefixLen < promptWidth prompts + settings.maxNewTokens := by
  have wide : request.promptIds.length ≤ promptWidth prompts :=
    le_maximum _ _ (List.mem_map_of_mem within.prompt)
  have short := within.short
  have committed := within.committed
  omega

section staging

variable (trees : ∀ request ∈ state.active, request.TreeFits maxTreeWidth)
include trees

theorem requests_staged {request : ActiveRequest} (member : request ∈ state.active) :
    ∃ tree current, request.tree = some tree ∧ (tree, request.targetPrefixLen) ∈ state.requests ∧
      tree.WellFormed current ∧ tree.width ≤ maxTreeWidth := by
  obtain ⟨tree, current, drafted, wellFormed, narrow⟩ := trees request member
  refine ⟨tree, current, drafted, ?_, wellFormed, narrow⟩
  refine List.mem_filterMap.mpr ⟨request.toRequestState, List.mem_map_of_mem member, ?_⟩
  simp [Batch.staged, drafted]

theorem treeWidth_le (settings : Settings) : state.treeWidth settings ≤ maxTreeWidth := by
  apply maximum_le
  intro width member
  obtain ⟨entry, inRequests, rfl⟩ := List.mem_map.mp member
  obtain ⟨requestState, inStates, shape⟩ := List.mem_filterMap.mp inRequests
  obtain ⟨request, inActive, rfl⟩ := List.mem_map.mp inStates
  obtain ⟨tree, -, drafted, -, narrow⟩ := trees request inActive
  obtain rfl : (tree, request.targetPrefixLen) = entry := by
    simpa [Batch.staged, drafted] using shape
  exact narrow

theorem treeWidth_pos (settings : Settings) (some : state.active ≠ []) : 0 < state.treeWidth settings := by
  obtain ⟨request, member⟩ := List.exists_mem_of_ne_nil _ some
  obtain ⟨tree, current, -, inRequests, wellFormed, -⟩ := requests_staged trees member
  exact Nat.lt_of_lt_of_le wellFormed.width_pos (width_le_treeWidth _ _ _ inRequests)

end staging

/-- Trees are staged without an error and without growing the cache. -/
theorem stageTrees_invariant [Zero E]
    (invariant : LoopInvariant settings models prompts maxTreeWidth state)
    (ready : RoundReady settings models maxTreeWidth state) (some : state.active ≠ []) :
    ∃ following, stageTrees settings state = .ok following ∧
      LoopInvariant settings models prompts maxTreeWidth following := by
  obtain ⟨committed, width, capacity⟩ := invariant.target
  have narrow := treeWidth_le ready.trees settings
  have reserved : commitReserve state.requests (state.treeWidth settings) ≤
      state.treeWidth settings := Nat.min_le_left _ _
  have bounded : ∀ length ∈ state.active.map (fun request => request.targetPrefixLen),
      length ≤ state.target.committedCapacity := by
    intro length member
    obtain ⟨request, inActive, rfl⟩ := List.mem_map.mp member
    exact committed ▸ Nat.le_of_lt (invariant.within request inActive).prefix_lt
  have longest := maximum_le _ _ bounded
  have prepared := DenseTargetCache.prepareTree_total state.target
    (by rw [List.length_map, ready.batch]) (by simpa using some)
    (treeWidth_pos ready.trees settings some) reserved bounded
  have declared := DenseTargetCache.placeTree_declared (state.treeWidth settings)
    (commitReserve state.requests (state.treeWidth settings))
    (state.active.map (fun request => request.targetPrefixLen)) state.target
    (by omega) (by omega)
  obtain ⟨batch, sameCommitted, staged, start, packed, reserve, -, -, -⟩ :=
    DenseTargetCache.placeTree_fields (state.treeWidth settings)
      (commitReserve state.requests (state.treeWidth settings))
      (state.active.map (fun request => request.targetPrefixLen)) state.target
  have ran : stageTrees settings state = .ok { state with
      phase := .staged
      target := state.target.placeTree (state.treeWidth settings)
        (state.active.map (fun request => request.targetPrefixLen))
        (commitReserve state.requests (state.treeWidth settings)) } := by
    rw [stageTrees, prepared]
    rfl
  refine ⟨_, ran, ⟨?_, ?_, ?_⟩, invariant.within, ?_, ?_⟩
  · exact sameCommitted.trans committed
  · exact declared.1.trans width
  · exact declared.2.trans (capacity.trans (congrArg (· + 2 * maxTreeWidth) sameCommitted.symm))
  · exact ⟨⟨ready.place.draft, ready.place.sized, ready.place.rows⟩, batch.trans ready.batch,
      ready.trees⟩
  · refine ⟨staged, packed, reserve, ?_⟩
    exact start.trans (congrArg₂ (· + ·) staged.symm reserve.symm)

section committing

variable {decisions : List (Decision H)}

theorem survivor_spec (ready : RoundReady settings models maxTreeWidth state)
    (fit : DecisionsFit state.active decisions) {row : Nat}
    (alive : row ∈ nextActiveRows settings (state.active.map ActiveRequest.toRequestState)
      (decisions.map Decision.toAccepted)) :
    ∃ request decision tree path, state.active[row]? = some request ∧
      decisions[row]? = some decision ∧ request ∈ state.active ∧ request.tree = some tree ∧
      (tree, request.targetPrefixLen) ∈ state.requests ∧ decision.toAccepted.OnTree tree path ∧
      (commitRequest settings request.toRequestState decision.toAccepted).finished = false := by
  obtain ⟨listed, goesOn⟩ := List.mem_filter.mp alive
  have inside : row < state.active.length := by simpa using listed
  have insideDecisions : row < decisions.length := fit.each ▸ inside
  have atRequest := List.getElem?_eq_getElem inside
  have atDecision := List.getElem?_eq_getElem insideDecisions
  obtain ⟨tree, current, drafted, inRequests, -, -⟩ :=
    requests_staged ready.trees (List.getElem_mem inside)
  obtain ⟨path, onTree⟩ := fit.onTree row _ _ tree atRequest atDecision drafted
  refine ⟨_, _, tree, path, atRequest, atDecision, List.getElem_mem inside, drafted, inRequests,
    onTree, ?_⟩
  simpa [survives, atRequest, atDecision] using goesOn

/-- A request that goes on outputs all it was proposed, and stays within the limit. -/
theorem committed_within {request : ActiveRequest} {decision : Decision H} {tree : Tree}
    {path : List Nat} (within : request.Within settings prompts)
    (onTree : decision.toAccepted.OnTree tree path)
    (unfinished : (commitRequest settings request.toRequestState decision.toAccepted).finished =
      false) :
    (request.committed settings decision).Within settings prompts ∧
    (request.committed settings decision).outputTokens.length =
      request.outputTokens.length + decision.chain.acceptLength + 1 ∧
    decision.selectedPathIndices.length = decision.chain.acceptLength + 1 := by
  obtain ⟨output, width⟩ := commitRequest_unfinished settings _ _ unfinished
  have accepted : decision.chain.acceptLength = decision.acceptLength := by
    have tokens := congrArg List.length onTree.tokens
    rw [Tree.tokensAt, List.length_map, List.length_tail, onTree.length, Nat.add_sub_cancel] at tokens
    exact tokens
  have indices : decision.selectedPathIndices.length = decision.chain.acceptLength + 1 := by
    rw [onTree.indices, List.length_map, onTree.length, accepted]
  have grown : (commitRequest settings request.toRequestState decision.toAccepted).outputTokens.length =
      request.outputTokens.length + decision.chain.acceptLength + 1 := by
    rw [output, List.length_append, Accepted.proposed, List.length_append, List.length_singleton]
    rfl
  have short : (commitRequest settings request.toRequestState
      decision.toAccepted).outputTokens.length < settings.maxNewTokens := by
    simp only [commitRequest, Bool.or_eq_false_iff, decide_eq_false_iff_not, Nat.not_le] at unfinished
    exact unfinished.1.1
  have committed := within.committed
  refine ⟨⟨within.prompt, Nat.lt_of_lt_of_eq (Nat.succ_pos _) grown.symm, short, ?_⟩, grown, indices⟩
  show (commitRequest settings request.toRequestState decision.toAccepted).targetPrefixLen + 1 =
    request.promptIds.length +
      (commitRequest settings request.toRequestState decision.toAccepted).outputTokens.length
  rw [width, grown, indices]
  omega

/-- What a request that goes on commits fits its row, the reserve and the capacity. -/
theorem pending_fits (invariant : LoopInvariant settings models prompts maxTreeWidth state)
    (ready : RoundReady settings models maxTreeWidth state) (staged : RoundStaged settings state)
    (fit : DecisionsFit state.active decisions) {pending : PendingCommit}
    (member : pending ∈ pendingCommits settings (state.active.map ActiveRequest.toRequestState)
      (decisions.map Decision.toAccepted)) :
    pending.row < state.target.activeBatchSize ∧
      pending.logicalPrefixLen ≤ state.target.committedWidth ∧
      pending.selectedTreeIndices.length ≤ state.target.commitReserve ∧
      pending.logicalPrefixLen + pending.selectedTreeIndices.length ≤
        state.target.committedCapacity ∧
      pending.logicalPrefixLen + pending.selectedTreeIndices.length ≤ state.target.treeStart ∧
      ∀ index ∈ pending.selectedTreeIndices, 0 ≤ index ∧ index < (state.target.treeWidth : Int) := by
  obtain ⟨row, alive, rfl⟩ := List.mem_map.mp member
  obtain ⟨request, decision, tree, path, atRequest, atDecision, inActive, drafted, inRequests, onTree,
    unfinished⟩ := survivor_spec ready fit alive
  have within := invariant.within request inActive
  obtain ⟨following, -, indices⟩ := committed_within within onTree unfinished
  have inside : row < state.active.length := (List.getElem?_eq_some_iff.mp atRequest).1
  have read : (state.active.map ActiveRequest.toRequestState)[row]?.elim 0
      RequestState.targetPrefixLen = request.targetPrefixLen := by simp [atRequest]
  have selected : (decisions.map Decision.toAccepted)[row]?.elim []
      Accepted.selectedPathIndices = decision.selectedPathIndices := by simp [atDecision]
  have longest : request.targetPrefixLen ≤ state.target.committedWidth := by
    rw [staged.committed]
    exact le_maximum _ _ (List.mem_map_of_mem inActive)
  obtain ⟨inTree, inRow⟩ := onTree.length_le
  have packed := width_le_treeWidth _ settings.padTokenId _ inRequests
  have widest := le_maximum _ _ (List.mem_map_of_mem
    (f := fun request : Tree × Nat => request.1.retrieve.width) inRequests)
  have reserve : decision.selectedPathIndices.length ≤ state.target.commitReserve := by
    rw [staged.reserve, onTree.indices, List.length_map]
    exact Nat.le_min.mpr ⟨inTree.trans packed, inRow.trans widest⟩
  have bounded : request.targetPrefixLen + decision.selectedPathIndices.length <
      promptWidth prompts + settings.maxNewTokens := by
    have width := (commitRequest_unfinished settings _ _ unfinished).2
    have capped : (commitRequest settings request.toRequestState decision.toAccepted).targetPrefixLen <
        promptWidth prompts + settings.maxNewTokens := following.prefix_lt
    omega
  dsimp only
  rw [read, selected]
  refine ⟨ready.batch ▸ inside, longest, reserve, ?_, ?_, ?_⟩
  · rw [invariant.target.committed]
    exact Nat.le_of_lt bounded
  · rw [staged.start]
    omega
  · intro index listed
    rw [onTree.indices, List.mem_map] at listed
    obtain ⟨node, onPath, rfl⟩ := listed
    have nodeInside := onTree.inside node onPath
    rw [staged.width]
    refine ⟨Int.natCast_nonneg node, ?_⟩
    exact Int.ofNat_lt.mpr (Nat.lt_of_lt_of_le nodeInside packed)

theorem survivors_listed (ready : RoundReady settings models maxTreeWidth state)
    (fit : DecisionsFit state.active decisions) {position row : Nat}
    (atRow : (nextActiveRows settings (state.active.map ActiveRequest.toRequestState)
      (decisions.map Decision.toAccepted))[position]? = some row) :
    ∃ request decision tree path, state.active[row]? = some request ∧ request ∈ state.active ∧
      decision.toAccepted.OnTree tree path ∧
      (commitRequest settings request.toRequestState decision.toAccepted).finished = false ∧
      (gather (nextActiveRows settings (state.active.map ActiveRequest.toRequestState)
        (decisions.map Decision.toAccepted)) decisions)[position]? = some decision ∧
      (gather (nextActiveRows settings (state.active.map ActiveRequest.toRequestState)
        (decisions.map Decision.toAccepted)) (List.zipWith (ActiveRequest.committed settings)
          state.active decisions))[position]? = some (request.committed settings decision) := by
  obtain ⟨request, decision, tree, path, atRequest, atDecision, inActive, -, -, onTree, unfinished⟩ :=
    survivor_spec ready fit (List.mem_of_getElem? atRow)
  have inside : ∀ row ∈ nextActiveRows settings (state.active.map ActiveRequest.toRequestState)
      (decisions.map Decision.toAccepted), row < state.active.length := by
    intro row member
    simpa using (List.mem_filter.mp member).1
  refine ⟨request, decision, tree, path, atRequest, inActive, onTree, unfinished, ?_, ?_⟩
  · rw [gather_getElem? _ _ (fun row member => fit.each ▸ inside row member), atRow]
    exact atDecision
  · rw [gather_getElem? _ _ (fun row member => by simpa [fit.each] using inside row member), atRow]
    simp [List.getElem?_zipWith, atRequest, atDecision]

theorem commitRound_invariant (invariant : LoopInvariant settings models prompts maxTreeWidth state)
    (ready : RoundReady settings models maxTreeWidth state) (staged : RoundStaged settings state)
    (fit : DecisionsFit state.active decisions) :
    ∃ following, commitRound settings decisions state = .ok following ∧
      LoopInvariant settings models prompts maxTreeWidth following := by
  obtain ⟨target, counts, ran, capacity, width, room⟩ :=
    DenseTargetCache.commitPaths_total _ (fun pending member =>
      pending_fits invariant ready staged fit member)
  generalize rowsEq : nextActiveRows settings (state.active.map ActiveRequest.toRequestState)
    (decisions.map Decision.toAccepted) = rows
  have committed : commitRound settings decisions state = .ok {
      phase := .committed rows (gather rows decisions)
      active := gather rows (List.zipWith (ActiveRequest.committed settings) state.active decisions)
      target := target
      draft := state.draft } := by
    subst rowsEq
    simp only [commitRound, ran, bind, Except.bind, pure, Except.pure]
  have inside : ∀ row ∈ rows, row < state.active.length := by
    intro row member
    subst rowsEq
    simpa using (List.mem_filter.mp member).1
  have survivors := fun position row (atRow : rows[position]? = some row) =>
    survivors_listed ready fit (rowsEq ▸ atRow)
  rw [rowsEq] at survivors
  have actives : (gather rows (List.zipWith (ActiveRequest.committed settings) state.active
      decisions)).length = rows.length :=
    gather_length _ _ (fun row member => by simpa [fit.each] using inside row member)
  have decided : (gather rows decisions).length = rows.length :=
    gather_length _ _ (fun row member => fit.each ▸ inside row member)
  have origin : ∀ active ∈ gather rows (List.zipWith (ActiveRequest.committed settings) state.active
      decisions), ∃ (request : ActiveRequest) (decision : Decision H) (tree : Tree) (path : List Nat),
      request ∈ state.active ∧ request.committed settings decision = active ∧
        decision.toAccepted.OnTree tree path ∧
        (commitRequest settings request.toRequestState decision.toAccepted).finished = false := by
    intro active member
    obtain ⟨position, bound, rfl⟩ := List.getElem_of_mem member
    have atRow := List.getElem?_eq_getElem (actives ▸ bound)
    obtain ⟨request, decision, tree, path, -, inActive, onTree, unfinished, -, read⟩ :=
      survivors position _ atRow
    exact ⟨request, decision, tree, path, inActive,
      (Option.some.inj ((List.getElem?_eq_getElem bound).symm.trans read)).symm, onTree, unfinished⟩
  refine ⟨_, committed, ⟨capacity.trans invariant.target.committed,
    width.trans invariant.target.width,
    room.trans (invariant.target.capacity.trans (congrArg (· + 2 * maxTreeWidth) capacity.symm))⟩,
    ?_, ⟨⟨ready.place.draft.consistent, ?_⟩, actives.symm, decided.trans actives.symm, ?_, ?_⟩⟩
  · intro active member
    obtain ⟨request, decision, tree, path, inActive, rfl, onTree, unfinished⟩ := origin active member
    exact (committed_within (invariant.within request inActive) onTree unfinished).1
  · obtain ⟨longest, bounded, declared⟩ := ready.place.draft.declared
    refine ⟨longest, fun active member => ?_, declared⟩
    obtain ⟨request, decision, tree, path, inActive, rfl, -, -⟩ := origin active member
    exact bounded request inActive
  · intro row member
    exact Nat.lt_of_lt_of_eq (inside row member) ready.place.sized.symm
  · intro position row active decision atActive atRow atDecision
    obtain ⟨request, own, tree, path, atRequest, inActive, onTree, unfinished, ownDecision, ownActive⟩ :=
      survivors position row atRow
    obtain rfl : own = decision := Option.some.inj (ownDecision.symm.trans atDecision)
    obtain rfl : request.committed settings own = active :=
      Option.some.inj (ownActive.symm.trans atActive)
    obtain ⟨slots, holds, least, most⟩ := ready.place.rows row request atRequest
    have grown := (committed_within (invariant.within request inActive) onTree unfinished).2.1
    refine ⟨slots, holds, least, ?_⟩
    have owed : own.owed false ≤ own.chain.acceptLength + 1 := by
      unfold Decision.owed
      split <;> simp
    have limit : (request.committed settings own).slotLimit models.K =
        request.slotLimit models.K + (own.chain.acceptLength + 1) * models.K := by
      unfold ActiveRequest.slotLimit
      rw [grown, ← Nat.add_mul]
      congr 1
      show request.promptIds.length + _ = _
      omega
    have paid := Nat.mul_le_mul_right models.K owed
    rw [limit]
    omega

end committing

section drafting

variable {decisions : List (Decision H)}

theorem compactLoop_invariant {rows : List Nat}
    (invariant : LoopInvariant settings models prompts maxTreeWidth state)
    (survivors : Survivors settings models rows decisions state) (some : rows ≠ []) :
    LoopInvariant settings models prompts maxTreeWidth (compactLoop rows decisions state) := by
  obtain ⟨capacity, width, room⟩ := state.target.compactRows_declared rows
  obtain ⟨consistent, sized, kept, moved⟩ :=
    DraftBatchCache.compactRows_ok survivors.draft.consistent survivors.inside
  obtain ⟨longest, bounded, declared⟩ := survivors.draft.declared
  have nonempty : state.active ≠ [] := by
    rw [← List.length_pos_iff, ← survivors.paired]
    exact List.length_pos_iff.mpr some
  refine ⟨⟨capacity.trans invariant.target.committed, width.trans invariant.target.width,
    room.trans (invariant.target.capacity.trans (congrArg (· + 2 * maxTreeWidth) capacity.symm))⟩,
    invariant.within, ⟨⟨consistent, longest, bounded, kept.trans declared⟩,
      sized.trans survivors.paired, ?_⟩, survivors.decided, nonempty,
    (state.target.compactRows_fields rows).1.trans survivors.paired⟩
  intro position request atRequest
  have inside : position < state.active.length := (List.getElem?_eq_some_iff.mp atRequest).1
  have atRow := List.getElem?_eq_getElem (survivors.paired ▸ inside)
  have atDecision := List.getElem?_eq_getElem (survivors.decided ▸ inside)
  obtain ⟨slots, holds, least, most⟩ := survivors.rows position _ request _ atRequest atRow atDecision
  refine ⟨slots, moved position _ slots atRow holds, least, ?_⟩
  rw [atDecision]
  exact most

/-- The requests that are drafted, one for each active request. -/
theorem loopRequests_listed {active : List ActiveRequest} (decided : decisions.length = active.length)
    {position : Nat} {request : ActiveRequest} (atRequest : active[position]? = some request) :
    ∃ decision, decisions[position]? = some decision ∧
      (loopRequests active decisions)[position]? = some ⟨request.draftPosition, decision.chain⟩ := by
  have inside : position < active.length := (List.getElem?_eq_some_iff.mp atRequest).1
  have atDecision := List.getElem?_eq_getElem (decided ▸ inside)
  exact ⟨_, atDecision, by simp [loopRequests, List.getElem?_zipWith, atRequest, atDecision]⟩

theorem loopRequests_length {active : List ActiveRequest} (decided : decisions.length = active.length) :
    (loopRequests active decisions).length = active.length := by
  simp [loopRequests, decided]

theorem rollbackLoop_invariant
    (invariant : LoopInvariant settings models prompts maxTreeWidth state)
    (drafting : Drafting settings models decisions false state) :
    ∃ following, rollbackLoop models decisions state = .ok following ∧
      LoopInvariant settings models prompts maxTreeWidth following := by
  have count := loopRequests_length drafting.decided
  have rows := fun position request (atRequest : state.active[position]? = some request) =>
    drafting.place.rows position request atRequest
  have rolled : ∃ draft, rollbackRejected models.K state.draft
      (loopRequests state.active decisions) = .ok draft := by
    unfold rollbackRejected
    split
    next => exact ⟨_, rfl⟩
    next =>
      have distinct : (rejectedRows (loopRequests state.active decisions)).Nodup :=
        List.nodup_range.filter _
      obtain ⟨lengths, dropped⟩ := DraftBatchCache.rollbackRow_total (K := models.K)
        state.draft.lengthsHost distinct (by
          intro row member
          have inside : row < state.active.length := by
            have listed := (List.mem_filter.mp member).1
            rwa [List.mem_range, count] at listed
          obtain ⟨slots, holds, least, -⟩ := rows row _ (List.getElem?_eq_getElem inside)
          exact ⟨_, holds.counted, by simpa using least⟩)
      unfold DraftBatchCache.rollbackRows
      rw [dropped]
      exact ⟨_, rfl⟩
  obtain ⟨draft, ran⟩ := rolled
  obtain ⟨consistent, sized, kept, moved⟩ :=
    rollbackRejected_ok drafting.place.draft.consistent ran
  obtain ⟨longest, bounded, declared⟩ := drafting.place.draft.declared
  have following : rollbackLoop models decisions state =
      .ok { state with phase := .rolledBack decisions, draft := draft } := by
    rw [rollbackLoop, ran]
    rfl
  refine ⟨_, following, invariant.target, invariant.within,
    ⟨⟨consistent, longest, bounded, kept.trans declared⟩, sized.trans drafting.place.sized, ?_⟩,
    drafting.decided, drafting.some, drafting.batch⟩
  intro position request atRequest
  obtain ⟨slots, holds, least, most⟩ := rows position request atRequest
  obtain ⟨decision, atDecision, listed⟩ := loopRequests_listed drafting.decided atRequest
  refine ⟨_, moved position slots holds, by simp, ?_⟩
  simp only [atDecision, Option.elim_some, Decision.owed, Bool.toNat_false, Bool.not_false,
    Bool.toNat_true, Nat.one_mul] at most least ⊢
  simp only [mem_rejectedRows listed]
  by_cases none : decision.chain.acceptLength = 0
  · rw [if_pos none] at most
    rw [if_pos none, if_pos none, List.length_take]
    omega
  · rw [if_neg none] at most
    rw [if_neg none, if_neg none]
    exact most

theorem draftAccepted_invariant {trees : List Tree}
    (invariant : LoopInvariant settings models prompts maxTreeWidth state)
    (drafting : Drafting settings models decisions true state)
    (fit : TreesFit maxTreeWidth state.active trees) :
    ∃ following, draftAccepted models decisions trees state = .ok following ∧
      LoopInvariant settings models prompts maxTreeWidth following := by
  have count := loopRequests_length drafting.decided
  obtain ⟨longest, bounded, declared⟩ := drafting.place.draft.declared
  have listed := fun position request (atRequest : state.active[position]? = some request) =>
    loopRequests_listed drafting.decided atRequest
  have valid : ∀ (position : Nat) (request : ActiveRequest), state.active[position]? = some request →
      ∃ decision, decisions[position]? = some decision ∧
        ((loopRequests state.active decisions).map DraftRequest.validLength)[position]? =
          some (decision.owed true) := by
    intro position request atRequest
    obtain ⟨decision, atDecision, read⟩ := listed position request atRequest
    refine ⟨decision, atDecision, ?_⟩
    rw [List.getElem?_map, read]
    rfl
  have sized : ((loopRequests state.active decisions).map DraftRequest.validLength).length =
      state.draft.activeBatchSize := by
    rw [List.length_map, count, DraftBatchCache.activeBatchSize, drafting.place.sized]
  have positive : ∀ length ∈ (loopRequests state.active decisions).map DraftRequest.validLength,
      0 < length := by
    intro length member
    obtain ⟨request, -, rfl⟩ := List.mem_map.mp member
    unfold DraftRequest.validLength
    split <;> omega
  have everyActive : activeCount ((loopRequests state.active decisions).map DraftRequest.validLength) =
      ((loopRequests state.active decisions).map DraftRequest.validLength).length :=
    List.countP_eq_length.mpr (fun length member => decide_eq_true (positive length member))
  have nonempty : (loopRequests state.active decisions).map DraftRequest.validLength ≠ [] := by
    rw [← List.length_pos_iff, List.length_map, count]
    exact List.length_pos_iff.mpr drafting.some
  have checked : RaggedChecked models.K state.draft
      ((loopRequests state.active decisions).map DraftRequest.validLength) := by
    refine ⟨nonempty, ?_, ?_, ?_, ?_, ?_⟩
    · exact Nat.ne_of_gt (positive _ (maximum_spec _ nonempty).1)
    · intro length member
      exact Nat.ne_of_gt (positive length (List.mem_of_mem_take member))
    · rw [everyActive, List.drop_length]
      intro length member
      simp at member
    · intro none
      have layers := congrArg List.length declared
      simp only [none, List.map_nil, List.length_nil, List.length_replicate] at layers
      exact Nat.ne_of_lt models.layered layers
    · rw [cacheCapacity_declared declared models.layered]
      apply maxTotalSlots_le
      intro row length owed counted read
      have inside : row < state.active.length := by
        rw [← drafting.place.sized]
        exact (List.getElem?_eq_some_iff.mp counted).1
      have atRequest := List.getElem?_eq_getElem inside
      obtain ⟨decision, atDecision, owes⟩ := valid row _ atRequest
      obtain rfl : decision.owed true = owed := Option.some.inj (owes.symm.trans read)
      obtain ⟨slots, holds, -, most⟩ := drafting.place.rows row _ atRequest
      rw [atDecision, Option.elim_some] at most
      obtain rfl : slots.length = length := Option.some.inj (holds.counted.symm.trans counted)
      refine most.trans (Nat.mul_le_mul_right _ ?_)
      have short := (invariant.within _ (List.getElem_mem inside)).short
      have fits := bounded _ (List.getElem_mem inside)
      omega
  obtain ⟨draft, ran⟩ : ∃ draft, runRaggedDraftForward models.K state.draft
      ((loopRequests state.active decisions).map DraftRequest.hiddenRow)
      ((loopRequests state.active decisions).map DraftRequest.tokenRow)
      ((loopRequests state.active decisions).map DraftRequest.startPosition)
      ((loopRequests state.active decisions).map DraftRequest.validLength) = .ok draft :=
    raggedForward_total _ _ _ _ (by
      simp [count, DraftBatchCache.activeBatchSize, drafting.place.sized]) sized checked
      (fun strict => absurd (everyActive.trans sized) strict)
  have forward := raggedForward_ok drafting.place.draft.consistent ran
  have following : draftAccepted models decisions trees state = .ok { state with
      phase := .ready
      active := List.zipWith (fun (request : ActiveRequest) (drafted : Decision H × Tree) =>
        request.drafted drafted.1 drafted.2) state.active (decisions.zip trees)
      draft := draft } := by
    simp only [draftAccepted, ran, bind, Except.bind, pure, Except.pure]
  have origin : ∀ (position : Nat) (active : ActiveRequest),
      (List.zipWith (fun (request : ActiveRequest) (drafted : Decision H × Tree) =>
        request.drafted drafted.1 drafted.2) state.active (decisions.zip trees))[position]? =
          some active →
      ∃ (request : ActiveRequest) (decision : Decision H) (tree : Tree),
        state.active[position]? = some request ∧ tree ∈ trees ∧
          active = request.drafted decision tree := by
    intro position active read
    rw [List.getElem?_zipWith] at read
    split at read
    next request drafted atRequest atDrafted =>
      obtain ⟨-, atTree⟩ := List.getElem?_zip_eq_some.mp atDrafted
      exact ⟨request, drafted.1, drafted.2, atRequest, List.mem_of_getElem? atTree,
        (Option.some.inj read).symm⟩
    next => cases read
  have kept : ∀ active ∈ List.zipWith (fun (request : ActiveRequest) (drafted : Decision H × Tree) =>
      request.drafted drafted.1 drafted.2) state.active (decisions.zip trees),
      ∃ (request : ActiveRequest) (decision : Decision H) (tree : Tree), request ∈ state.active ∧
        tree ∈ trees ∧ active = request.drafted decision tree := by
    intro active member
    obtain ⟨position, read⟩ := List.getElem?_of_mem member
    obtain ⟨request, decision, tree, atRequest, inTrees, same⟩ := origin position active read
    exact ⟨request, decision, tree, List.mem_of_getElem? atRequest, inTrees, same⟩
  have actives : (List.zipWith (fun (request : ActiveRequest) (drafted : Decision H × Tree) =>
      request.drafted drafted.1 drafted.2) state.active (decisions.zip trees)).length =
        state.active.length := by
    simp [drafting.decided, fit.each]
  refine ⟨_, following, invariant.target, ?_, ⟨⟨⟨forward.consistent, longest, ?_,
    forward.declared.trans declared⟩, ?_, ?_⟩, drafting.batch.trans actives.symm, ?_⟩⟩
  · intro active member
    obtain ⟨request, decision, tree, inActive, -, rfl⟩ := kept active member
    have within := invariant.within request inActive
    exact ⟨within.prompt, within.started, within.short, within.committed⟩
  · intro active member
    obtain ⟨request, decision, tree, inActive, -, rfl⟩ := kept active member
    exact bounded request inActive
  · rw [forward.lengths, List.length_zipWith, sized, DraftBatchCache.activeBatchSize, Nat.min_self,
      drafting.place.sized]
    exact actives.symm
  · intro position active read
    obtain ⟨request, decision, tree, atRequest, -, rfl⟩ := origin position active read
    obtain ⟨slots, holds, -, most⟩ := drafting.place.rows position request atRequest
    obtain ⟨own, atOwn, owes⟩ := valid position request atRequest
    rw [atOwn, Option.elim_some] at most
    have owed : ((loopRequests state.active decisions).map DraftRequest.validLength).getD position 0 =
        own.owed true := by
      rw [List.getD_eq_getElem?_getD, owes, Option.getD_some]
    have some : 1 ≤ own.owed true := positive _ (List.mem_of_getElem? owes)
    have least := Nat.mul_le_mul_right models.K some
    refine ⟨_, forward.rows position slots holds, ?_, ?_⟩
    · rw [List.length_append, List.length_map, List.length_range, owed]
      omega
    · rw [List.length_append, List.length_map, List.length_range, owed, Nat.zero_mul]
      exact most
  · intro active member
    obtain ⟨request, decision, tree, -, inTrees, rfl⟩ := kept active member
    obtain ⟨narrow, current, wellFormed⟩ := fit.fit tree inTrees
    exact ⟨tree, current, rfl, wellFormed, narrow⟩

end drafting

/-- The bookkeeping of both caches is in order: one vector of draft lengths everywhere, no row
longer than its prompt and the token limit allow, and no storage that had to grow. -/
structure LoopState.Bounded (settings : Settings) (models : Models) (prompts : List (List Nat))
    (maxTreeWidth : Nat) (state : LoopState E H) : Prop where
  device : state.draft.deviceLengths = state.draft.lengthsHost
  views : ∀ layer ∈ state.draft.layers, state.draft.vectors layer.lengths = state.draft.lengthsHost
  slots : ∀ (position row : Nat) (request : ActiveRequest), state.active[position]? = some request →
    state.draftRow position = some row → ∃ length, state.draft.lengthsHost[row]? = some length ∧
      length ≤ (request.promptIds.length + settings.maxNewTokens) * models.K
  capacity : state.target.capacity =
    promptWidth prompts + settings.maxNewTokens + 2 * maxTreeWidth

theorem consistent_views {draft : DraftBatchCache (CrossSlot (List H))} (consistent : draft.Consistent) :
    draft.deviceLengths = draft.lengthsHost ∧
      ∀ layer ∈ draft.layers, draft.vectors layer.lengths = draft.lengthsHost := by
  refine ⟨consistent.device, fun layer member => ?_⟩
  rw [consistent.views layer member]
  exact consistent.device

/-- A row with room for what its request owes is not longer than the token limit allows. -/
theorem RowFits.bounded {draft : DraftBatchCache (CrossSlot (List H))} {row least owed : Nat}
    {request : ActiveRequest} (fits : RowFits models.K draft row least owed request)
    (within : request.Within settings prompts) :
    ∃ length, draft.lengthsHost[row]? = some length ∧
      length ≤ (request.promptIds.length + settings.maxNewTokens) * models.K := by
  obtain ⟨slots, holds, -, most⟩ := fits
  have short := within.short
  have limit : request.slotLimit models.K ≤
      (request.promptIds.length + settings.maxNewTokens) * models.K :=
    Nat.mul_le_mul_right _ (by omega)
  exact ⟨_, holds.counted, by omega⟩

theorem LoopInvariant.bounded (invariant : LoopInvariant settings models prompts maxTreeWidth state) :
    state.Bounded settings models prompts maxTreeWidth := by
  have capacity : state.target.capacity =
      promptWidth prompts + settings.maxNewTokens + 2 * maxTreeWidth := by
    rw [invariant.target.capacity, invariant.target.committed]
  have within := fun position request (read : state.active[position]? = some request) =>
    invariant.within request (List.mem_of_getElem? read)
  have holds := invariant.phase
  unfold PhaseHolds at holds
  cases phase : state.phase with
  | prefilling =>
    simp only [phase] at holds
    obtain ⟨device, views⟩ := consistent_views holds.2
    refine ⟨device, views, fun position row request read => ?_, capacity⟩
    rw [holds.1] at read
    simp at read
  | drafting sources requests chunk =>
    simp only [phase] at holds
    obtain ⟨device, views⟩ := consistent_views holds.holds.consistent
    refine ⟨device, views, fun position row request read atRow => ?_, capacity⟩
    obtain rfl : position = row := by simpa [LoopState.draftRow, phase] using atRow
    have limits := within position request read
    rw [holds.active, List.getElem?_map, Option.map_eq_some_iff] at read
    obtain ⟨initial, atInitial, rfl⟩ := read
    have filled := holds.holds.rows position initial atInitial
    refine ⟨_, filled.counted, ?_⟩
    rw [initial.slotsBefore_length]
    apply Nat.mul_le_mul_right
    have short := limits.short
    show min _ (initial.promptIds.length + 1) ≤ initial.promptIds.length + _
    omega
  | ready =>
    simp only [phase] at holds
    obtain ⟨device, views⟩ := consistent_views holds.place.draft.consistent
    refine ⟨device, views, fun position row request read atRow => ?_, capacity⟩
    obtain rfl : position = row := by simpa [LoopState.draftRow, phase] using atRow
    exact (holds.place.rows position request read).bounded (within position request read)
  | staged =>
    simp only [phase] at holds
    obtain ⟨device, views⟩ := consistent_views holds.1.place.draft.consistent
    refine ⟨device, views, fun position row request read atRow => ?_, capacity⟩
    obtain rfl : position = row := by simpa [LoopState.draftRow, phase] using atRow
    exact (holds.1.place.rows position request read).bounded (within position request read)
  | committed rows decisions =>
    simp only [phase] at holds
    obtain ⟨device, views⟩ := consistent_views holds.draft.consistent
    refine ⟨device, views, fun position row request read atRow => ?_, capacity⟩
    have listed : rows[position]? = some row := by simpa [LoopState.draftRow, phase] using atRow
    have inside : position < state.active.length := (List.getElem?_eq_some_iff.mp read).1
    have atDecision := List.getElem?_eq_getElem (holds.decided ▸ inside)
    exact (holds.rows position row request _ read listed atDecision).bounded
      (within position request read)
  | compacted decisions =>
    simp only [phase] at holds
    obtain ⟨device, views⟩ := consistent_views holds.place.draft.consistent
    refine ⟨device, views, fun position row request read atRow => ?_, capacity⟩
    obtain rfl : position = row := by simpa [LoopState.draftRow, phase] using atRow
    exact (holds.place.rows position request read).bounded (within position request read)
  | rolledBack decisions =>
    simp only [phase] at holds
    obtain ⟨device, views⟩ := consistent_views holds.place.draft.consistent
    refine ⟨device, views, fun position row request read atRow => ?_, capacity⟩
    obtain rfl : position = row := by simpa [LoopState.draftRow, phase] using atRow
    exact (holds.place.rows position request read).bounded (within position request read)

theorem write_invariant [Zero E] {index batch queryLen positions : Nat} {entries : Storage E}
    {target : DenseTargetCache E}
    (invariant : LoopInvariant settings models prompts maxTreeWidth state)
    (phase : state.phase = .prefilling ∨ state.phase = .staged)
    (result : state.target.updateLayer index batch queryLen positions entries = .ok target) :
    LoopInvariant settings models prompts maxTreeWidth { state with target := target } := by
  obtain ⟨layers, -, rfl⟩ := DenseTargetCache.updateLayer_fields result
  obtain ⟨⟨committed, width, capacity⟩, within, holds⟩ := invariant
  refine ⟨⟨committed, width, capacity⟩, within, ?_⟩
  unfold PhaseHolds at holds ⊢
  rcases phase with prefilling | staged
  · simp only [prefilling] at holds ⊢
    exact holds
  · simp only [staged] at holds ⊢
    obtain ⟨⟨place, batch, trees⟩, committed, width, reserve, start⟩ := holds
    exact ⟨⟨⟨place.draft, place.sized, place.rows⟩, batch, trees⟩, committed, width, reserve, start⟩

theorem loopStep_invariant [Zero E] (limit : 1 ≤ settings.maxNewTokens)
    {following : LoopOutcome E H}
    (invariant : LoopInvariant settings models prompts maxTreeWidth state)
    (taken : LoopStep settings models prompts maxTreeWidth (.running state) following) :
    ∃ next, following = .running next ∧ LoopInvariant settings models prompts maxTreeWidth next := by
  have holds := invariant.phase
  unfold PhaseHolds at holds
  cases taken with
  | write _ index batch queryLen positions entries target phase result =>
    exact ⟨_, rfl, write_invariant invariant phase result⟩
  | begin _ firstTokens requests phase entries =>
    exact ⟨_, rfl, beginDrafting_invariant limit invariant entries⟩
  | draftPrompts _ sources requests chunk phase left =>
    simp only [phase] at holds
    obtain ⟨next, ran, kept⟩ := draftPrompts_invariant limit holds invariant left
    exact ⟨next, by rw [ran]; rfl, kept⟩
  | finish _ sources requests chunk trees phase done fit =>
    simp only [phase] at holds
    exact ⟨_, rfl, finishDrafting_invariant holds invariant done fit⟩
  | stage _ phase some =>
    simp only [phase] at holds
    obtain ⟨next, ran, kept⟩ := stageTrees_invariant invariant holds some
    exact ⟨next, by rw [ran]; rfl, kept⟩
  | commit _ decisions phase fit =>
    simp only [phase] at holds
    obtain ⟨next, ran, kept⟩ := commitRound_invariant invariant holds.1 holds.2 fit
    exact ⟨next, by rw [ran]; rfl, kept⟩
  | compact _ rows decisions phase some =>
    simp only [phase] at holds
    exact ⟨_, rfl, compactLoop_invariant invariant holds some⟩
  | rollback _ decisions phase =>
    simp only [phase] at holds
    obtain ⟨next, ran, kept⟩ := rollbackLoop_invariant invariant holds
    exact ⟨next, by rw [ran]; rfl, kept⟩
  | draftAccepted _ decisions trees phase fit =>
    simp only [phase] at holds
    obtain ⟨next, ran, kept⟩ := draftAccepted_invariant invariant holds fit
    exact ⟨next, by rw [ran]; rfl, kept⟩

theorem cacheLoop_invariant [Zero E] {settings : Settings} {models : Models}
    {prompts : List (List Nat)} {maxTreeWidth : Nat} (limit : 1 ≤ settings.maxNewTokens)
    {outcome : LoopOutcome E H}
    (reached : (cacheLoop settings models prompts maxTreeWidth).Reachable outcome) :
    ∃ state, outcome = .running state ∧ LoopInvariant settings models prompts maxTreeWidth state :=
  reached.invariant (fun outcome => ∃ state,
    outcome = .running state ∧ LoopInvariant settings models prompts maxTreeWidth state) (by
      rintro outcome ⟨sharedStorage, rfl⟩
      exact ⟨_, rfl, initialLoopState_invariant sharedStorage⟩) (by
      rintro outcome following ⟨state, rfl, invariant⟩ taken
      exact loopStep_invariant limit invariant taken)

/-- No run of the loop reaches an error of either cache, and the bookkeeping of both stays in
order, whatever is accepted. -/
theorem cache_errors_unreachable [Zero E] (settings : Settings) (models : Models)
    (prompts : List (List Nat)) (maxTreeWidth : Nat) (limit : 1 ≤ settings.maxNewTokens)
    (outcome : LoopOutcome E H)
    (reached : (cacheLoop settings models prompts maxTreeWidth).Reachable outcome) :
    ∃ state, outcome = .running state ∧ state.Bounded settings models prompts maxTreeWidth := by
  obtain ⟨state, running, invariant⟩ := cacheLoop_invariant limit reached
  exact ⟨state, running, invariant.bounded⟩

/-- Two prompts, of two tokens and of one. -/
def twoPrompts : List (List Nat) := [[3, 1], [4]]

/-- Eight new tokens at most, none of which stops. -/
def eightTokens : Settings := ⟨8, [], 0, 11, 1⟩

/-- Two slots a position and one layer each. -/
def smallModels : Models := ⟨2, 1, 1, Nat.one_pos⟩

/-- The prompts as they are drafted, each with first token 7. -/
def twoRequests : List (InitialRequest (List Nat)) :=
  [⟨[3, 1], [[3], [1]], 7, by decide, by decide⟩, ⟨[4], [[4]], 7, by decide, by decide⟩]

/-- The first request accepts its guess, the second none. -/
def twoDecisions : List (Decision Nat) :=
  [⟨⟨1, [8], 9, [[0], [1]], 0, [0, 1]⟩, rfl⟩, ⟨⟨0, [], 5, [[2]], 0, [0]⟩, rfl⟩]

theorem twoDecisions_fit {active : List ActiveRequest}
    (trees : active.map (fun request => request.tree) = [some (Tree.pair 7 8), some (Tree.pair 7 8)]) :
    DecisionsFit active twoDecisions where
  each := by simpa [twoDecisions] using (congrArg List.length trees).symm
  onTree := by
    intro row request decision tree listed decided grown
    have member := trees ▸ List.mem_map_of_mem (List.mem_of_getElem? listed)
    obtain rfl : tree = Tree.pair 7 8 := by simpa [grown] using member
    match row, decided with
    | 0, decided =>
      obtain rfl := Option.some.inj decided
      exact ⟨[0, 1], rfl, rfl, rfl, by decide, rfl, (Tree.pair_wellFormed 7 8).rootPath_path 0⟩
    | 1, decided =>
      obtain rfl := Option.some.inj decided
      refine ⟨[0], rfl, rfl, rfl, by decide, rfl, fun position node read => ?_⟩
      cases position with
      | zero => exact Option.some.inj read ▸ rfl
      | succ position => cases read

/-- A round on two prompts, from their prefill to the rollback of the failed blocks, reaches no error. -/
theorem cache_errors_unreachable_twoPrompts : ∃ state : LoopState Nat Nat,
    (cacheLoop eightTokens smallModels twoPrompts 2).Reachable (.running state) ∧
      state.phase = .rolledBack twoDecisions ∧ state.Bounded eightTokens smallModels twoPrompts 2 := by
  have created : (cacheLoop (E := Nat) (H := Nat) eightTokens smallModels twoPrompts 2).Reachable
      (.running (initialLoopState eightTokens smallModels twoPrompts true 2)) := .start _ ⟨true, rfl⟩
  have begun := created.step _ _ (.begin _ (fun _ => 7) twoRequests rfl (by decide))
  have drafted := begun.step _ _ (.draftPrompts _ [0, 1] twoRequests 0 rfl (by decide))
  have finished := drafted.step _ _ (.finish _ [0, 1] twoRequests 1 [Tree.pair 7 8, Tree.pair 7 8] rfl (by decide)
    ⟨rfl, by
      intro tree listed
      obtain rfl : tree = Tree.pair 7 8 := by simpa using listed
      exact ⟨le_rfl, 7, Tree.pair_wellFormed 7 8⟩⟩)
  have staged := finished.step _ _ (.stage _ rfl (List.cons_ne_nil _ _))
  have committed := staged.step _ _ (.commit _ twoDecisions rfl (twoDecisions_fit rfl))
  have compacted := committed.step _ _ (.compact _ [0, 1] twoDecisions rfl (List.cons_ne_nil _ _))
  have rolledBack := compacted.step _ _ (.rollback _ twoDecisions rfl)
  obtain ⟨state, running, bounded⟩ :=
    cache_errors_unreachable eightTokens smallModels twoPrompts 2 (by decide) _ rolledBack
  exact ⟨state, running ▸ rolledBack, by cases running; rfl, bounded⟩

end SpecBlock.Draft
