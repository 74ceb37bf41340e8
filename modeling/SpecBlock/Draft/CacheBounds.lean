import SpecBlock.Draft.CacheLoop

/-!
# No cache operation of the loop fails

A request that goes on has fewer output tokens than the limit, and its prefix is its prompt
and all but the last of them. Its draft row never has more slots than its prompt and its
output have tokens: a round that accepts some adds one position for each token it outputs, and
a round that accepts none replaces one. Both capacities follow, up to the last round.

A round changes tokens and rows in several operations. In between, a row is short of the
positions its request still owes.
-/

namespace SpecBlock.Draft

open Serving Batch Rows

variable {E H : Type}

/-- A request that goes on: within the token limit, with its prefix committed. -/
structure ActiveRequest.Within (settings : Settings) (prompts : List (List Nat))
    (request : ActiveRequest) : Prop where
  prompt : request.promptIds ∈ prompts
  started : 0 < request.outputTokens.length
  short : request.outputTokens.length < settings.maxNewTokens
  committed : request.targetPrefixLen + 1 = request.promptIds.length + request.outputTokens.length

/-- A request's tree is within the declared width. -/
def ActiveRequest.TreeFits (maxTreeWidth : Nat) (request : ActiveRequest) : Prop :=
  ∃ tree current, request.tree = some tree ∧ tree.WellFormed current ∧ tree.width ≤ maxTreeWidth

/-- One position for each token of a request so far. -/
def ActiveRequest.slotLimit (K : Nat) (request : ActiveRequest) : Nat :=
  (request.promptIds.length + request.outputTokens.length) * K

/-- A draft row has room for the positions its request still owes. -/
def RowFits (K : Nat) (draft : DraftBatchCache (CrossSlot (List H))) (row least owed : Nat)
    (request : ActiveRequest) : Prop :=
  ∃ slots, draft.RowHolds row slots ∧ least * K ≤ slots.length ∧
    slots.length + owed * K ≤ request.slotLimit K

/-- Positions a decision still owes its row, before and after the failed block is dropped. -/
def Decision.owed (decision : Decision H) (dropped : Bool) : Nat :=
  if decision.chain.acceptLength = 0 then dropped.toNat else decision.chain.acceptLength + 1

section invariant

variable (settings : Settings) (models : Models) (prompts : List (List Nat)) (maxTreeWidth : Nat)

/-- What the target cache was declared with. -/
structure TargetDeclared (target : DenseTargetCache E) : Prop where
  committed : target.committedCapacity = promptWidth prompts + settings.maxNewTokens
  width : target.maxTreeWidth = maxTreeWidth
  capacity : target.capacity = target.committedCapacity + 2 * maxTreeWidth

/-- The draft cache was declared for the longest prompt it serves. -/
structure DraftDeclared (active : List ActiveRequest)
    (draft : DraftBatchCache (CrossSlot (List H))) : Prop where
  consistent : draft.Consistent
  declared : ∃ longest, (∀ request ∈ active, request.promptIds.length ≤ longest) ∧
    draft.layers.map DraftLayer.maxCacheLen =
      List.replicate models.draftLayers ((longest + settings.maxNewTokens) * models.K)

/-- While prompts are drafted each row holds its request's slots so far. -/
structure PromptsDrafting (sources : List Nat) (requests : List (InitialRequest (List H)))
    (chunk : Nat) (state : LoopState E H) : Prop where
  sources : sources.length = requests.length
  active : state.active = requests.map (fun request =>
    ⟨prefilled settings request.promptIds request.currentToken, 0⟩)
  ordered : Ordered requests
  holds : ChunkHolds models.K models.draftLayers
    ((maximum (requests.map (fun request => request.promptIds.length)) + settings.maxNewTokens) *
      models.K) requests (chunk * 64) state.draft

/-- Active requests sit in the leading rows of the draft cache, in order. -/
structure RowsInPlace (state : LoopState E H) (least : Nat) (owed : Nat → Nat) : Prop where
  draft : DraftDeclared settings models state.active state.draft
  sized : state.draft.lengthsHost.length = state.active.length
  rows : ∀ position request, state.active[position]? = some request →
    RowFits models.K state.draft position least (owed position) request

/-- Between two rounds. -/
structure RoundReady (state : LoopState E H) : Prop where
  place : RowsInPlace settings models state 1 (fun _ => 0)
  batch : state.target.activeBatchSize = state.active.length
  trees : ∀ request ∈ state.active, request.TreeFits maxTreeWidth

/-- Where the trees of a round were staged. -/
structure RoundStaged (state : LoopState E H) : Prop where
  committed : state.target.committedWidth =
    maximum (state.active.map (fun request => request.targetPrefixLen))
  width : state.target.treeWidth = state.treeWidth settings
  reserve : state.target.commitReserve =
    commitReserve state.requests (state.treeWidth settings)
  start : state.target.treeStart = state.target.committedWidth + state.target.commitReserve

/-- Survivors wait in their old rows. -/
structure Survivors (rows : List Nat) (decisions : List (Decision H)) (state : LoopState E H) :
    Prop where
  draft : DraftDeclared settings models state.active state.draft
  paired : rows.length = state.active.length
  decided : decisions.length = state.active.length
  inside : ∀ row ∈ rows, row < state.draft.activeBatchSize
  rows : ∀ (position row : Nat) (request : ActiveRequest) (decision : Decision H),
    state.active[position]? = some request → rows[position]? = some row →
    decisions[position]? = some decision →
      RowFits models.K state.draft row 1 (decision.owed false) request

/-- Survivors were gathered; their decisions are to be drafted. -/
structure Drafting (decisions : List (Decision H)) (dropped : Bool) (state : LoopState E H) :
    Prop where
  place : RowsInPlace settings models state (!dropped).toNat
    (fun position => decisions[position]?.elim 0 (fun decision => decision.owed dropped))
  decided : decisions.length = state.active.length
  some : state.active ≠ []
  batch : state.target.activeBatchSize = state.active.length

/-- The invariant of the loop, phase by phase. -/
def PhaseHolds (state : LoopState E H) : Prop :=
  match state.phase with
  | .prefilling => state.active = [] ∧ state.draft.Consistent
  | .drafting sources requests chunk =>
    PromptsDrafting settings models sources requests chunk state
  | .ready => RoundReady settings models maxTreeWidth state
  | .staged => RoundReady settings models maxTreeWidth state ∧ RoundStaged settings state
  | .committed rows decisions => Survivors settings models rows decisions state
  | .compacted decisions => Drafting settings models decisions false state
  | .rolledBack decisions => Drafting settings models decisions true state

/-- The invariant of the loop. -/
structure LoopInvariant (state : LoopState E H) : Prop where
  target : TargetDeclared settings prompts maxTreeWidth state.target
  within : ∀ request ∈ state.active, request.Within settings prompts
  phase : PhaseHolds settings models maxTreeWidth state

end invariant

/-- Sizes none of which is larger than the one before are in descending order. -/
theorem descending_pairwise (sizes : List Nat)
    (descends : (sizes.zip sizes.tail).any (fun pair => decide (pair.1 < pair.2)) = false) :
    sizes.Pairwise (fun first second => second ≤ first) := by
  induction sizes with
  | nil => exact .nil
  | cons first rest ih =>
    cases rest with
    | nil => exact List.pairwise_singleton _ _
    | cons second rest =>
      rw [List.tail_cons, List.zip_cons_cons, List.any_cons, Bool.or_eq_false_iff] at descends
      obtain ⟨here, later⟩ := descends
      have following := ih later
      refine List.pairwise_cons.mpr ⟨fun size member => ?_, following⟩
      have smaller : second ≤ first := Nat.le_of_not_lt (of_decide_eq_false here)
      rcases List.mem_cons.mp member with rfl | member
      · exact smaller
      · exact (List.rel_of_pairwise_cons following member).trans smaller

theorem initialEntries_ordered (states : List RequestState) :
    (initialEntries states).Pairwise (fun first second =>
      chunkCount states second ≤ chunkCount states first) := by
  unfold initialEntries
  dsimp only
  split
  · refine (List.pairwise_mergeSort ?_ ?_ _).imp (fun {first second} fewer => of_decide_eq_true fewer)
    · intro first second third left right
      exact decide_eq_true ((of_decide_eq_true right).trans (of_decide_eq_true left))
    · intro first second
      simpa using Nat.le_total (chunkCount states second) (chunkCount states first)
  next descends =>
    exact List.pairwise_map.mp (descending_pairwise _ (Bool.eq_false_iff.mpr descends))

theorem initialEntries_unfinished {states : List RequestState} {request : Nat}
    (member : request ∈ initialEntries states) :
    ∃ state, states[request]? = some state ∧ state.finished = false := by
  have listed := (initialEntries_perm states).mem_iff.mp member
  have unfinished := (List.mem_filter.mp listed).2
  cases read : states[request]? with
  | none => simp [read] at unfinished
  | some state => exact ⟨state, rfl, by simpa [read] using unfinished⟩

section prompts

variable {settings : Settings} {models : Models} {prompts : List (List Nat)} {maxTreeWidth : Nat}

theorem initialLoopState_invariant (sharedStorage : Bool) :
    LoopInvariant settings models prompts maxTreeWidth
      (initialLoopState settings models prompts sharedStorage maxTreeWidth : LoopState E H) :=
  ⟨⟨rfl, rfl, rfl⟩, fun _ member => by simp [initialLoopState] at member,
    rfl, DraftBatchCache.new_consistent _ _ _⟩

/-- The requests whose prompts are drafted: unfinished, and ordered by their chunks. -/
theorem entries_spec {firstTokens : Nat → Nat} {requests : List (InitialRequest (List H))}
    (limit : 1 ≤ settings.maxNewTokens)
    (entries : requests.map (fun request => (request.promptIds, request.currentToken)) =
      (initialEntries (prefilledStates settings prompts firstTokens)).map
        (fun request => (prompts.getD request [], firstTokens request))) :
    Ordered requests ∧ ∀ request ∈ requests,
      (⟨prefilled settings request.promptIds request.currentToken, 0⟩ : ActiveRequest).Within
        settings prompts := by
  have listed : ∀ request ∈ initialEntries (prefilledStates settings prompts firstTokens),
      ∃ prompt, prompts[request]? = some prompt ∧
        (prefilled settings prompt (firstTokens request)).finished = false := by
    intro request member
    obtain ⟨state, read, unfinished⟩ := initialEntries_unfinished member
    rw [prefilledStates, List.getElem?_mapIdx, Option.map_eq_some_iff] at read
    obtain ⟨prompt, atPrompt, rfl⟩ := read
    exact ⟨prompt, atPrompt, unfinished⟩
  constructor
  · have sameChunks : requests.map InitialRequest.chunks =
        (initialEntries (prefilledStates settings prompts firstTokens)).map
          (chunkCount (prefilledStates settings prompts firstTokens)) := by
      have sizes := congrArg (List.map (fun entry : List Nat × Nat => (entry.1.length + 64) / 64)) entries
      rw [List.map_map, List.map_map] at sizes
      refine sizes.trans (List.map_congr_left fun request member => ?_)
      obtain ⟨prompt, atPrompt, -⟩ := listed request member
      simp [chunkCount, prefilledStates, atPrompt, prefilled, List.getD_eq_getElem?_getD]
    have ordered := initialEntries_ordered (prefilledStates settings prompts firstTokens)
    rw [← List.pairwise_map (f := chunkCount (prefilledStates settings prompts firstTokens))
      (R := fun first second => second ≤ first), ← sameChunks] at ordered
    exact List.pairwise_map.mp ordered
  · intro request member
    have inMap : (request.promptIds, request.currentToken) ∈
        requests.map (fun request => (request.promptIds, request.currentToken)) :=
      List.mem_map_of_mem member
    rw [entries, List.mem_map] at inMap
    obtain ⟨index, inEntries, same⟩ := inMap
    obtain ⟨prompt, atPrompt, unfinished⟩ := listed index inEntries
    have own : request.promptIds = prompt := by
      have first := congrArg Prod.fst same
      simpa [List.getD_eq_getElem?_getD, atPrompt] using first.symm
    have notOne : settings.maxNewTokens ≠ 1 := by
      intro one
      simp [prefilled, one] at unfinished
    refine ⟨own ▸ List.mem_of_getElem? atPrompt, ?_, ?_, ?_⟩
    · exact Nat.one_pos
    · show 1 < settings.maxNewTokens
      omega
    · rfl

theorem beginDrafting_invariant {state : LoopState E H} {firstTokens : Nat → Nat}
    {requests : List (InitialRequest (List H))} (limit : 1 ≤ settings.maxNewTokens)
    (invariant : LoopInvariant settings models prompts maxTreeWidth state)
    (entries : requests.map (fun request => (request.promptIds, request.currentToken)) =
      (initialEntries (prefilledStates settings prompts firstTokens)).map
        (fun request => (prompts.getD request [], firstTokens request))) :
    LoopInvariant settings models prompts maxTreeWidth (beginDrafting settings models
      (initialEntries (prefilledStates settings prompts firstTokens)) requests state) := by
  obtain ⟨ordered, within⟩ := entries_spec limit entries
  refine ⟨invariant.target, ?_, ?_, rfl, ordered, ?_⟩
  · intro active member
    obtain ⟨request, listed, rfl⟩ := List.mem_map.mp member
    exact within request listed
  · simpa using (congrArg List.length entries).symm
  · exact initialCache_holds models.draftLayers settings.maxNewTokens requests

section drafting

variable {state : LoopState E H} {sources : List Nat}
  {requests : List (InitialRequest (List H))} {chunk : Nat}
  (limit : 1 ≤ settings.maxNewTokens) (drafting : PromptsDrafting settings models sources requests chunk state)

include limit in
theorem total_le {request : InitialRequest (List H)} (member : request ∈ requests) :
    request.total * models.K ≤
      (maximum (requests.map (fun request => request.promptIds.length)) + settings.maxNewTokens) *
        models.K := by
  have longest := le_maximum _ _ (List.mem_map_of_mem
    (f := fun request : InitialRequest (List H) => request.promptIds.length) member)
  apply Nat.mul_le_mul_right
  unfold InitialRequest.total
  omega

include limit drafting in
theorem draftPrompts_invariant (invariant : LoopInvariant settings models prompts maxTreeWidth state)
    (left : chunk * 64 < maximum (requests.map InitialRequest.total)) :
    ∃ following, draftPrompts models sources requests chunk state = .ok following ∧
      LoopInvariant settings models prompts maxTreeWidth following := by
  have unfinished : ∃ request ∈ requests, chunk * 64 < request.total := by
    have some : requests.map InitialRequest.total ≠ [] := by
      intro none
      rw [none] at left
      exact Nat.not_lt_zero _ left
    obtain ⟨request, member, same⟩ := List.mem_map.mp (maximum_spec _ some).1
    exact ⟨request, member, same ▸ left⟩
  obtain ⟨draft, ran, holds⟩ := draftChunk_holds models.layered drafting.ordered
    (fun request member => total_le limit member) unfinished drafting.holds
  have drafted : draftPrompts models sources requests chunk state =
      .ok { state with phase := .drafting sources requests (chunk + 1), draft := draft } := by
    rw [draftPrompts, ran]
    rfl
  exact ⟨_, drafted, invariant.target, invariant.within,
    ⟨drafting.sources, drafting.active, drafting.ordered, holds⟩⟩

include drafting in
theorem finishDrafting_invariant
    (invariant : LoopInvariant settings models prompts maxTreeWidth state) {trees : List Tree}
    (done : maximum (requests.map InitialRequest.total) ≤ chunk * 64)
    (fit : TreesFit maxTreeWidth state.active trees) :
    LoopInvariant settings models prompts maxTreeWidth
      (finishDrafting sources requests trees state) := by
  have sized : state.active.length = requests.length := by rw [drafting.active, List.length_map]
  have count : (finishDrafting sources requests trees state).active.length = requests.length := by
    simp [finishDrafting, sized, fit.each]
  have listed : ∀ (position : Nat) (active : ActiveRequest),
      (finishDrafting sources requests trees state).active[position]? = some active →
      ∃ request tree, requests[position]? = some request ∧ tree ∈ trees ∧ active =
        (⟨{ prefilled settings request.promptIds request.currentToken with tree := some tree },
          request.total⟩ : ActiveRequest) := by
    intro position active read
    simp only [finishDrafting, drafting.active, List.getElem?_zipWith, List.getElem?_map] at read
    cases atRequest : requests[position]? with
    | none => simp [atRequest] at read
    | some request =>
      cases atTree : trees[position]? with
      | none => simp [atRequest, atTree] at read
      | some tree =>
        refine ⟨request, tree, rfl, List.mem_of_getElem? atTree, ?_⟩
        simpa [atRequest, atTree, ActiveRequest.withTree] using read.symm
  obtain ⟨capacity, width, room⟩ := state.target.compactRows_declared sources
  refine ⟨?_, ?_, ⟨⟨?_, ?_, ?_⟩, ?_, ?_⟩⟩
  · exact ⟨capacity.trans invariant.target.committed, width.trans invariant.target.width,
      room.trans (invariant.target.capacity.trans (congrArg (· + 2 * maxTreeWidth) capacity.symm))⟩
  · intro active member
    obtain ⟨position, read⟩ := List.getElem?_of_mem member
    obtain ⟨request, tree, atRequest, -, rfl⟩ := listed position active read
    have within := invariant.within ⟨prefilled settings request.promptIds request.currentToken, 0⟩ (by
      rw [drafting.active]
      exact List.mem_map_of_mem (List.mem_of_getElem? atRequest))
    exact ⟨within.prompt, within.started, within.short, within.committed⟩
  · refine ⟨drafting.holds.consistent, _, ?_, drafting.holds.declared⟩
    intro active member
    obtain ⟨position, read⟩ := List.getElem?_of_mem member
    obtain ⟨request, tree, atRequest, -, rfl⟩ := listed position active read
    exact le_maximum _ _ (List.mem_map_of_mem (f := fun request : InitialRequest (List H) =>
      request.promptIds.length) (List.mem_of_getElem? atRequest))
  · rw [count]
    exact drafting.holds.sized
  · intro position active read
    obtain ⟨request, tree, atRequest, -, rfl⟩ := listed position active read
    have whole : request.total ≤ chunk * 64 :=
      (le_maximum _ _ (List.mem_map_of_mem (List.mem_of_getElem? atRequest))).trans done
    have filled := request.slotsBefore_length (K := models.K) (chunk * 64)
    rw [Nat.min_eq_right whole] at filled
    refine ⟨_, drafting.holds.rows position request atRequest, ?_, ?_⟩
    · rw [filled]
      exact Nat.mul_le_mul_right _ (Nat.succ_le_of_lt (Nat.succ_pos _))
    · rw [filled, Nat.zero_mul]
      exact Nat.le_refl _
  · rw [count, ← drafting.sources]
    exact state.target.compactRows_fields sources |>.1
  · intro active member
    obtain ⟨position, read⟩ := List.getElem?_of_mem member
    obtain ⟨request, tree, -, inTrees, rfl⟩ := listed position active read
    obtain ⟨narrow, current, wellFormed⟩ := fit.fit tree inTrees
    exact ⟨tree, current, rfl, wellFormed, narrow⟩

end drafting

end prompts

end SpecBlock.Draft
