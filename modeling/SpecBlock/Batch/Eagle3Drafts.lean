import Mathlib.Logic.Function.Conjugate
import SpecBlock.Batch.Eagle3Lossless

/-!
# The draft layer of the batched EAGLE3 loop

Trees are built request by request. The official draft layer keeps the keys and
values of what it drafted from in one field, `stable_kv`, which all requests of a
batch share; `_build_tree` puts the request's own draft cache there, lets the layer
draft from the target's hidden states and the request's tokens, and keeps what it
finds in the field afterwards. The target's hidden states are gathered from the
batch's forward, in the prefill up to the end of the prompt and in a round at the
nodes of the accepted path.

The draft network is a parameter: any function of the field, the hidden states and
the tokens to a tree and a new field. Whatever it does, and whatever the field held
before, a request of a batch goes through the states it goes through alone, its
draft cache included, and its output is that of plain greedy decoding.
-/

namespace SpecBlock.Eagle3

open Batch Causal

variable {Kv H D : Type}

/-- `ea_layer`: the shared field, `none` before the layer's first call, and the network that drafts
from it. The network with its top choices stands for the weights, and no call changes it; the tree
mask, which each call resets before it reads it, is part of the network. -/
structure EaLayer (H D : Type) where
  stableKv : Option D
  network : Option D → List H → List Nat → Tree × Option D

/-- `topK_genrate`: a tree drafted from the field, the hidden states and the tokens. The layer's
field is what the network leaves there. -/
def EaLayer.topKGenrate (layer : EaLayer H D) (hiddenStates : List H) (inputIds : List Nat) :
    Tree × EaLayer H D :=
  let drafted := layer.network layer.stableKv hiddenStates inputIds
  (drafted.1, { layer with stableKv := drafted.2 })

/-- A `_RequestState` with its `draft_cache`. -/
structure Drafting (Kv D : Type) extends Request Kv where
  draftCache : Option D

/-- `_build_tree`: the layer's field is swapped for the request's draft cache, and the request takes
the tree and keeps the field that the layer leaves. -/
def buildTree (layer : EaLayer H D) (state : Drafting Kv D) (hiddenStates : List H) (nextToken : Nat) :
    EaLayer H D × Drafting Kv D :=
  let layer := { layer with stableKv := state.draftCache }
  let draftInputIds := state.inputIds ++ [nextToken]
  let (result, layer) := layer.topKGenrate hiddenStates draftInputIds
  (layer, { state with draftCache := layer.stableKv, tree := result })

/-- `_build_tree` for one request after the other, each with its hidden states and its next token. A request
that has finished is passed by. -/
def buildTrees (layer : EaLayer H D) : List (Drafting Kv D × List H × Nat) → EaLayer H D × List (Drafting Kv D)
  | [] => (layer, [])
  | (state, hiddenStates, nextToken) :: rows =>
    let built := if state.finished then (layer, state) else buildTree layer state hiddenStates nextToken
    let others := buildTrees built.1 rows
    (others.1, built.2 :: others.2)

section loop

variable (limits : Eagle3Limits) (net : Network Nat Kv) (hidden : Query Nat Kv → H) (zero : Kv)
  (padTokenId : Nat)

/-- `_hidden_3h` of a forward: what the target computes of every query of a batch besides its choice. -/
def forwardHidden (attentionMask : List (List Bool)) (treeMask : Option (List (List (List Bool))))
    (inputIds positionIds : List (List Nat)) (cache : KvCache Kv) : List (List H) :=
  cache.data.mapIdx (fun row data =>
    (net.stage (decoderMask cache.currentLength (attentionMask.getD row [])
        (treeMask.map (fun masks => masks.getD row []))) 0 (data.take cache.currentLength)
      ((inputIds.getD row []).zip (positionIds.getD row []))).map hidden)

/-- `selected_hidden`: the hidden states at the selected nodes, where `clamp_min` sends an index of
the padding to the root. -/
def selectedHidden (hiddenStates : List H) (selectedNodes : List Int) : List H :=
  Rows.gather (selectedNodes.map Int.toNat) hiddenStates

/-- A round's commit of a request: it keeps its tree, which is replaced afterwards if it goes on. -/
def commitDrafting (state : Drafting Kv D) (compacted : List Kv) (accepted : SampledRow) : Drafting Kv D :=
  { state with
    toRequest := commitAccepted limits (fun _ _ _ => state.tree) state.toRequest compacted
      accepted.acceptLength (accepted.selectedTokens.map Int.toNat) accepted.nextToken }

/-- `next_rows`: the active requests once they have committed, each with the hidden states of its
accepted path and the token behind it. -/
def nextRows (verifyHidden : List (List H)) (active : List (Drafting Kv D))
    (accepted : List (List Kv × SampledRow)) : List (Drafting Kv D × List H × Nat) :=
  (active.zip accepted).mapIdx (fun row entry =>
    (commitDrafting limits entry.1 entry.2.1 entry.2.2,
      selectedHidden (verifyHidden.getD row []) entry.2.2.selectedNodes, entry.2.2.nextToken))

/-- One round of the loop, with the layer's field before and after it. -/
def draftRound (layer : EaLayer H D) (states : List (Drafting Kv D)) :
    Except String (EaLayer H D × List (Drafting Kv D)) := do
  let active := states.filter (fun state => !state.finished)
  let requests := active.map Drafting.toRequest
  let packed := packTrees (requests.map (fun state => (state.tree, state.inputIds.length))) padTokenId
  let cache ← packTargetCaches zero requests packed.treeWidth
  let attentionMask := treeAttentionMask (requests.map (fun state => state.inputIds.length))
    cache.currentLength packed.treeWidth
  let treeMask := some (packTreeMasks (requests.map Request.tree) packed.treeWidth)
  let (targetPred, extended) ← forward net attentionMask treeMask packed.inputIds packed.positionIds cache
  let verifyHidden := forwardHidden net hidden attentionMask treeMask packed.inputIds packed.positionIds cache
  let accepted ← acceptActiveBatch requests packed.inputIds targetPred extended cache.currentLength
  let built := buildTrees layer (nextRows limits verifyHidden active accepted)
  .ok (built.1, writeBack (fun state => state.finished) states built.2)

/-- The loop, for at most so many rounds. -/
def draftLoop : Nat → EaLayer H D → List (Drafting Kv D) → Except String (List (Drafting Kv D))
  | 0, _, states => .ok states
  | rounds + 1, layer, states =>
    if states.all (fun state => state.finished) then .ok states
    else do
      let following ← draftRound limits net hidden zero padTokenId layer states
      draftLoop rounds following.1 following.2

/-- A request before its first tree. -/
def newDrafting (row : Nat) (prompt : List Nat) (targetCache : List Kv) : Drafting Kv D where
  conversation := row
  promptLen := prompt.length
  inputIds := prompt
  targetCache := targetCache
  tree := ⟨[], [], [], ⟨[], 0, nofun⟩⟩
  iterations := 0
  generatedTokens := 0
  acceptLengthsRaw := []
  finished := false
  draftCache := none

/-- The requests after the prefill, each with the hidden states of its prompt and its first token. -/
def promptRows (prefillHidden : List (List H)) (targetPred : List (List Nat)) (cache : KvCache Kv)
    (prompts : List (List Nat)) : List (Drafting Kv D × List H × Nat) :=
  prompts.mapIdx (fun row prompt =>
    (newDrafting row prompt ((cache.data.getD row []).take prompt.length),
      (prefillHidden.getD row []).take prompt.length, (targetPred.getD row []).getD (prompt.length - 1) 0))

/-- `generate_conversations` at temperature zero with its draft layer, run for at most so many rounds: the
prefill, the first trees from the prompts' hidden states, and the loop. -/
def generateDrafts (layer : EaLayer H D) (rounds : Nat) (prompts : List (List Nat)) :
    Except String (List (Drafting Kv D)) := do
  let width := maximum (prompts.map List.length)
  let attentionMask := prompts.map (promptAttention width)
  let inputIds := prompts.map (promptIds padTokenId width)
  let positionIds := attentionMask.map promptPositions
  let allocated := allocateTargetKv zero prompts.length width 0
  let (targetPred, cache) ← forward net attentionMask none inputIds positionIds allocated
  let prefillHidden := forwardHidden net hidden attentionMask none inputIds positionIds allocated
  let built := buildTrees layer (promptRows prefillHidden targetPred cache prompts)
  draftLoop limits net hidden zero padTokenId rounds built.1 built.2

end loop

section own

variable (limits : Eagle3Limits) (net : Network Nat Kv) (hidden : Query Nat Kv → H)
  (network : Option D → List H → List Nat → Tree × Option D)

/-- The hidden states of the accepted tokens, as the plain forward on the request's input and these tokens
computes them. -/
def ownHidden (state : Request Kv) : List H :=
  ((net.plainQueries (state.inputIds ++ ownTokens net state)).drop state.inputIds.length).map hidden

/-- A request's next tree and draft cache, drafted from its own cache by a layer of its own. -/
def ownTree (state : Drafting Kv D) (hiddenStates : List H) (nextToken : Nat) : Drafting Kv D :=
  if state.finished then state else (buildTree ⟨none, network⟩ state hiddenStates nextToken).2

/-- A request's own round, its draft cache included. -/
def ownDraftRound (state : Drafting Kv D) : Drafting Kv D :=
  ownTree network (commitDrafting limits state (net.chain (state.inputIds ++ ownTokens net state.toRequest))
    (ownDecision net state.toRequest)) (ownHidden net hidden state.toRequest)
    (ownDecision net state.toRequest).nextToken

/-- A round of the batch, as far as one request goes. -/
def advanceDraft (state : Drafting Kv D) : Drafting Kv D :=
  if state.finished then state else ownDraftRound limits net hidden network state

/-- A request after the prefill, its first tree drafted from the hidden states of its prompt. -/
def initialDraft (row : Nat) (prompt : List Nat) : Drafting Kv D :=
  ownTree network (newDrafting row prompt (net.chain prompt)) ((net.plainQueries prompt).map hidden)
    (net.next prompt)

variable {limits net hidden network}

/-- The requests of a batch take the trees that layers of their own would draft, whatever the shared field
holds in between, and the network stays as it is. -/
theorem buildTrees_own (layer : EaLayer H D) (rows : List (Drafting Kv D × List H × Nat)) :
    (buildTrees layer rows).2 = rows.map (fun row => ownTree layer.network row.1 row.2.1 row.2.2) ∧
      (buildTrees layer rows).1.network = layer.network := by
  induction rows generalizing layer with
  | nil => exact ⟨rfl, rfl⟩
  | cons row rows ih =>
    obtain ⟨state, hiddenStates, nextToken⟩ := row
    cases ended : state.finished with
    | true =>
      obtain ⟨trees, kept⟩ := ih layer
      simp only [buildTrees, ended, if_true, List.map_cons, ownTree, trees, kept, and_self]
    | false =>
      obtain ⟨trees, kept⟩ := ih (buildTree layer state hiddenStates nextToken).1
      have same : (buildTree layer state hiddenStates nextToken).1.network = layer.network := rfl
      rw [same] at trees kept
      simp only [buildTrees, ended, Bool.false_eq_true, if_false, List.map_cons, ownTree, trees, kept, and_true]
      rfl

/-- What a request commits does not depend on who drafts, apart from the tree of a request that goes on. -/
theorem ownDraftRound_request (state : Drafting Kv D) :
    (ownDraftRound limits net hidden network state).toRequest =
      ownRound limits (fun _ input next =>
        (network state.draftCache (ownHidden net hidden state.toRequest) (input ++ [next])).1)
        net state.toRequest := by
  have tokens : (ownDecision net state.toRequest).selectedTokens.map Int.toNat = ownTokens net state.toRequest := by
    rw [ownDecision, List.map_map]
    exact (List.map_congr_left fun token _ => Int.toNat_natCast token).trans (List.map_id _)
  rw [ownDraftRound, commitDrafting, tokens]
  cases ended : (commitAccepted limits (fun _ _ _ => state.tree) state.toRequest
      (net.chain (state.inputIds ++ ownTokens net state.toRequest)) (ownDecision net state.toRequest).acceptLength
      (ownTokens net state.toRequest) (ownDecision net state.toRequest).nextToken).finished with
  | true =>
    rw [ownTree, if_pos ended, ownRound]
    simp only [commitAccepted] at ended
    simp only [commitAccepted, ownDecision, ended, if_true]
  | false =>
    rw [ownTree, if_neg (by simp [ended]), ownRound]
    simp only [commitAccepted] at ended
    simp only [buildTree, EaLayer.topKGenrate, commitAccepted, ownDecision, ended, Bool.false_eq_true, if_false]

section ready

variable {zero : Kv} {padTokenId : Nat} {state : Request Kv}

variable (net hidden) in
/-- The hidden states in a request's packed row. -/
def packedHidden (packing : Packing Kv) (state : Request Kv) : List H :=
  (net.stage (packing.mask state) 0 ((packing.row state).take packing.prefixWidth) (packing.queries state)).map
    hidden

/-- What the packed forward computes of the requests' queries. -/
theorem forwardHidden_ready (active : List (Request Kv)) : forwardHidden net hidden
      (treeAttentionMask (active.map (fun state => state.inputIds.length))
        (packingOf zero padTokenId active).prefixWidth (packingOf zero padTokenId active).treeWidth)
      (some (packTreeMasks (active.map Request.tree) (packingOf zero padTokenId active).treeWidth))
      (packedTrees padTokenId active).inputIds (packedTrees padTokenId active).positionIds
      ⟨active.map (packingOf zero padTokenId active).row, (packingOf zero padTokenId active).prefixWidth⟩ =
    active.map (packedHidden net hidden (packingOf zero padTokenId active)) := by
  refine List.ext_getElem? fun row => ?_
  rw [forwardHidden, List.getElem?_mapIdx, List.getElem?_map, List.getElem?_map, Option.map_map]
  cases listed : active[row]? with
  | none => rfl
  | some state =>
    obtain ⟨mask, queries⟩ := @packedTrees_row _ zero padTokenId active state row listed
    simp only [Option.map_some, Function.comp_apply, mask, queries, packedHidden]

/-- The hidden states at a request's accepted path are those of the plain forward. -/
theorem selectedHidden_ready {packing : Packing Kv} (own : Ready net state) (fits : packing.Fits state) :
    selectedHidden (packedHidden net hidden packing state) (ownDecision net state).selectedNodes =
      ownHidden net hidden state := by
  obtain ⟨branch, -⟩ := @acceptedPath_branch state.tree (ownChoice net state) _ own.verifiable.wellFormed
  have path : (ownDecision net state).selectedNodes.map Int.toNat = ownPath net state := by
    rw [ownDecision, List.map_map]
    exact (List.map_congr_left fun node _ => Int.toNat_natCast node).trans (List.map_id _)
  rw [selectedHidden, path, packedHidden, Rows.gather_map, ownPath, (branch_continues own fits branch).gathered]
  rfl

end ready

end own

section runs

variable {limits : Eagle3Limits} {net : Network Nat Kv} {hidden : Query Nat Kv → H} {zero : Kv}
  {padTokenId : Nat}

/-- The trees that the active requests of a round have built are those of their own rounds. -/
theorem nextRows_own (network : Option D → List H → List Nat → Tree × Option D)
    {active : List (Drafting Kv D)}
    {requests : List (Request Kv)} (same : active.map Drafting.toRequest = requests)
    (own : ∀ request ∈ requests, Ready net request) :
    (nextRows limits (requests.map (packedHidden net hidden (packingOf zero padTokenId requests))) active
        (requests.map (fun state =>
          (net.chain (state.inputIds ++ ownTokens net state), ownDecision net state)))).map
        (fun row => ownTree network row.1 row.2.1 row.2.2) =
      active.map (ownDraftRound limits net hidden network) := by
  refine List.ext_getElem? fun row => ?_
  rw [nextRows, List.getElem?_map, List.getElem?_mapIdx, List.getElem?_map]
  cases listed : active[row]? with
  | none =>
    have short := List.getElem?_eq_none_iff.mp listed
    rw [List.getElem?_eq_none (by rw [List.length_zip]; omega)]
    rfl
  | some state =>
    have found : requests[row]? = some state.toRequest := by
      rw [← same, List.getElem?_map, listed]
      rfl
    have member := List.mem_of_getElem? found
    have entry : (active.zip (requests.map (fun state =>
        (net.chain (state.inputIds ++ ownTokens net state), ownDecision net state))))[row]? =
        some (state, net.chain (state.inputIds ++ ownTokens net state.toRequest),
          ownDecision net state.toRequest) :=
      List.getElem?_zip_eq_some.mpr ⟨listed, by rw [List.getElem?_map, found]; rfl⟩
    have gathered := @selectedHidden_ready _ _ net hidden state.toRequest _ (own _ member)
      (@packingOf_fits _ zero padTokenId _ _ member)
    rw [entry]
    simp only [Option.map_some, List.getD_eq_getElem?_getD, List.getElem?_map, found, Option.getD_some, gathered]
    rfl

/-- A round of the batch does to every unfinished request what its own round does, whatever the
layer's field holds, and leaves the others. -/
theorem draftRound_own (layer : EaLayer H D) {states : List (Drafting Kv D)}
    (ready : ∀ state ∈ states, state.finished = false → Ready net state.toRequest) :
    ∃ held, draftRound limits net hidden zero padTokenId layer states =
      .ok (⟨held, layer.network⟩, states.map (advanceDraft limits net hidden layer.network)) := by
  have own : ∀ request ∈ (states.filter (fun state => !state.finished)).map Drafting.toRequest,
      Ready net request := by
    intro request member
    obtain ⟨state, kept, rfl⟩ := List.mem_map.mp member
    obtain ⟨listed, runs⟩ := List.mem_filter.mp kept
    exact ready state listed (by simpa using runs)
  have advanced := writeBack_filter (fun state : Drafting Kv D => state.finished) states
    (ownDraftRound limits net hidden layer.network)
  rw [draftRound]
  generalize shape : states.filter (fun state => !state.finished) = active at own advanced
  have rebuilt := @nextRows_own _ _ _ limits net hidden zero padTokenId layer.network active _ rfl own
  generalize same : active.map Drafting.toRequest = requests at own rebuilt
  obtain ⟨trees, kept⟩ := buildTrees_own layer (nextRows limits (requests.map (packedHidden net hidden
    (packingOf zero padTokenId requests))) active (requests.map (fun state =>
      (net.chain (state.inputIds ++ ownTokens net state), ownDecision net state))))
  rw [rebuilt] at trees
  refine ⟨(buildTrees layer (nextRows limits (requests.map (packedHidden net hidden
    (packingOf zero padTokenId requests))) active (requests.map (fun state =>
      (net.chain (state.inputIds ++ ownTokens net state), ownDecision net state))))).1.stableKv, ?_⟩
  change (packTargetCaches zero requests (packingOf zero padTokenId requests).treeWidth >>= _) = _
  rw [packTargetCaches_ready own]
  change (forward net _ _ (packedTrees padTokenId requests).inputIds
    (packedTrees padTokenId requests).positionIds _ >>= _) = _
  refine (congrArg (· >>= _) (forward_ready own)).trans ?_
  refine (congrArg (fun called => called >>= fun accepted => Except.ok
    ((buildTrees layer (nextRows limits _ active accepted)).1,
      writeBack (fun state : Drafting Kv D => state.finished) states
        (buildTrees layer (nextRows limits _ active accepted)).2)) (acceptActiveBatch_ready own _)).trans ?_
  refine congrArg Except.ok ((congrArg (fun rows =>
    ((buildTrees layer (nextRows limits rows active _)).1,
      writeBack (fun state : Drafting Kv D => state.finished) states
        (buildTrees layer (nextRows limits rows active _)).2)) (forwardHidden_ready requests)).trans ?_)
  refine Prod.ext ?_ ((congrArg (writeBack _ states) trees).trans advanced)
  rw [← kept]

section prefill

variable {width : Nat} {prompt : List Nat}

theorem forwardHidden_prompts (prompts : List (List Nat)) :
    forwardHidden net hidden (prompts.map (promptAttention width)) none (prompts.map (promptIds padTokenId width))
        ((prompts.map (promptAttention width)).map promptPositions)
        (allocateTargetKv zero prompts.length width 0) =
      prompts.map (fun prompt =>
        (net.stage (promptMask width prompt) 0 [] (promptQueries padTokenId width prompt)).map hidden) := by
  refine List.ext_getElem? fun row => ?_
  rw [forwardHidden, allocateTargetKv, List.getElem?_mapIdx, List.getElem?_map]
  cases listed : prompts[row]? with
  | none => rw [List.getElem?_eq_none (by simpa using listed)]; rfl
  | some prompt =>
    rw [List.getElem?_replicate_of_lt (List.getElem?_eq_some_iff.mp listed).1]
    simp only [Option.map_some, List.getD_eq_getElem?_getD, List.getElem?_map, listed, Option.getD_some]
    rfl

/-- Up to the prompt's end these are the hidden states of the plain forward. -/
theorem promptHidden_take (fits : prompt.length ≤ width) :
    ((net.stage (promptMask width prompt) 0 [] (promptQueries padTokenId width prompt)).map hidden).take
        prompt.length = (net.plainQueries prompt).map hidden := by
  have gathered := (@prompt_continues _ net padTokenId width prompt).gathered
  rw [map_getD_range, List.nil_append, List.length_nil, List.drop_zero, Network.gather_range (by
    rw [Network.stage_length, promptQueries_length fits]
    exact fits)] at gathered
  rw [← List.map_take, gathered]

/-- What the prefill hands over for a request's first tree is what its prompt's plain forward computes. -/
theorem promptRows_own {prompts : List (List Nat)} (nonempty : ∀ prompt ∈ prompts, prompt ≠ [])
    (short : ∀ prompt ∈ prompts, prompt.length ≤ width) (length : Nat) :
    (promptRows (prompts.map (fun prompt =>
        (net.stage (promptMask width prompt) 0 [] (promptQueries padTokenId width prompt)).map hidden))
      (prompts.map (promptChoices net padTokenId width))
      ⟨prompts.map (promptColumns net padTokenId width), length⟩
      prompts : List (Drafting Kv D × List H × Nat)) =
    prompts.mapIdx (fun row prompt =>
      (newDrafting row prompt (net.chain prompt), (net.plainQueries prompt).map hidden, net.next prompt)) := by
  refine List.mapIdx_eq_mapIdx_iff.mpr fun row inside => ?_
  have listed : prompts[row]? = some prompts[row] := List.getElem?_eq_getElem inside
  have member := List.mem_of_getElem? listed
  have first := @promptChoices_next _ net padTokenId width _ (nonempty _ member)
  rw [List.getD_eq_getElem?_getD] at first
  simp only [List.getD_eq_getElem?_getD, List.getElem?_map, listed, Option.map_some, Option.getD_some,
    promptColumns_chain (short _ member), promptHidden_take (short _ member), first]

theorem generateDrafts_eq (layer : EaLayer H D) (rounds : Nat) {prompts : List (List Nat)}
    (nonempty : ∀ prompt ∈ prompts, prompt ≠ []) :
    ∃ held, generateDrafts limits net hidden zero padTokenId layer rounds prompts =
      draftLoop limits net hidden zero padTokenId rounds ⟨held, layer.network⟩
        (prompts.mapIdx (initialDraft net hidden layer.network)) := by
  obtain ⟨width, widest⟩ : ∃ width, maximum (prompts.map List.length) = width := ⟨_, rfl⟩
  have short : ∀ prompt ∈ prompts, prompt.length ≤ width := fun prompt member =>
    (le_maximum _ _ (List.mem_map_of_mem member)).trans_eq widest
  obtain ⟨trees, kept⟩ := @buildTrees_own Kv H D layer (prompts.mapIdx (fun row prompt =>
    (newDrafting row prompt (net.chain prompt), (net.plainQueries prompt).map hidden, net.next prompt)))
  have initial : (prompts.mapIdx (fun row prompt =>
      ((newDrafting row prompt (net.chain prompt), (net.plainQueries prompt).map hidden, net.next prompt) :
        Drafting Kv D × List H × Nat))).map (fun row => ownTree layer.network row.1 row.2.1 row.2.2) =
      prompts.mapIdx (initialDraft net hidden layer.network) := by
    refine List.ext_getElem? fun row => ?_
    rw [List.getElem?_map, List.getElem?_mapIdx, List.getElem?_mapIdx, Option.map_map]
    rfl
  rw [initial] at trees
  refine ⟨(buildTrees layer (prompts.mapIdx (fun row prompt =>
    ((newDrafting row prompt (net.chain prompt), (net.plainQueries prompt).map hidden, net.next prompt) :
      Drafting Kv D × List H × Nat)))).1.stableKv, ?_⟩
  rw [generateDrafts, widest, forward_prompts short]
  refine (congrArg (fun rows => draftLoop limits net hidden zero padTokenId rounds (buildTrees layer rows).1
    (buildTrees layer rows).2) ((congrArg (fun prefillHidden => promptRows prefillHidden _ _ prompts)
      (forwardHidden_prompts prompts)).trans (promptRows_own nonempty short _))).trans ?_
  simp only [trees, ← kept]

end prefill

section loop

variable {row : Nat} {prompt : List Nat} {network : Option D → List H → List Nat → Tree × Option D}
  {state : Drafting Kv D}

/-- A request before its first round, as the loop without its draft layer has it. -/
theorem initialDraft_serves
    (drafts : ∀ cache hiddenStates input next, Verifiable (network cache hiddenStates (input ++ [next])).1 next)
    (positive : 0 < limits.maxNewTokens) :
    Serves limits net row prompt (initialDraft net hidden network row prompt).toRequest :=
  @initialState_serves _ limits (fun _ input next =>
    (network none ((net.plainQueries prompt).map hidden) (input ++ [next])).1) net row prompt
    (fun _ input next => drafts none _ input next) positive

theorem advanceDraft_serves
    (drafts : ∀ cache hiddenStates input next, Verifiable (network cache hiddenStates (input ++ [next])).1 next)
    (serves : Serves limits net row prompt state.toRequest) :
    Serves limits net row prompt (advanceDraft limits net hidden network state).toRequest := by
  cases ended : state.finished with
  | true => rwa [advanceDraft, if_pos ended]
  | false =>
    rw [advanceDraft, if_neg (by simp [ended]), ownDraftRound_request]
    exact ownRound_serves (fun _ input next => drafts _ _ input next) serves ended

/-- A run of the loop takes every request through its own rounds, whatever the layer's field holds. -/
theorem draftLoop_own
    (drafts : ∀ cache hiddenStates input next, Verifiable (network cache hiddenStates (input ++ [next])).1 next)
    (rounds : Nat) {held : Option D} {states : List (Drafting Kv D)}
    (serves : ∀ state ∈ states, ∃ row prompt, Serves limits net row prompt state.toRequest) :
    draftLoop limits net hidden zero padTokenId rounds ⟨held, network⟩ states =
      .ok (states.map (advanceDraft limits net hidden network)^[rounds]) := by
  induction rounds generalizing held states with
  | zero => exact congrArg Except.ok (List.map_id states).symm
  | succ rounds ih =>
    have advanced : ∀ state ∈ states.map (advanceDraft limits net hidden network),
        ∃ row prompt, Serves limits net row prompt state.toRequest := by
      intro state member
      obtain ⟨earlier, listed, rfl⟩ := List.mem_map.mp member
      obtain ⟨row, prompt, served⟩ := serves earlier listed
      exact ⟨row, prompt, advanceDraft_serves drafts served⟩
    rw [draftLoop]
    split
    next ended =>
      have still : ∀ state ∈ states, (advanceDraft limits net hidden network)^[rounds + 1] state = state := by
        intro state member
        have fixed : advanceDraft limits net hidden network state = state :=
          if_pos (List.all_eq_true.mp ended state member)
        exact Function.iterate_fixed fixed _
      exact congrArg Except.ok ((List.map_congr_left still).trans (List.map_id states)).symm
    next =>
      obtain ⟨held', round⟩ := @draftRound_own _ _ _ limits net hidden zero padTokenId ⟨held, network⟩ states
        (fun state member runs => by
          obtain ⟨row, prompt, served⟩ := serves state member
          exact (served.running runs).1)
      rw [round]
      refine (@ih held' _ advanced).trans ?_
      rw [List.map_map]
      rfl

theorem ownTree_renamed (row : Nat) (state : Drafting Kv D) (hiddenStates : List H) (nextToken : Nat) :
    ownTree network { state with conversation := row } hiddenStates nextToken =
      { ownTree network state hiddenStates nextToken with conversation := row } := by
  unfold ownTree
  by_cases ended : state.finished = true
  · rw [if_pos ended, if_pos ended]
  · rw [if_neg ended, if_neg ended]
    rfl

/-- What a request goes through does not depend on its place in the batch. -/
theorem advanceDraft_renamed (row : Nat) :
    Function.Semiconj (fun state : Drafting Kv D => { state with conversation := row })
      (advanceDraft limits net hidden network) (advanceDraft limits net hidden network) := by
  intro state
  unfold advanceDraft
  by_cases ended : state.finished = true
  · rw [if_pos ended, if_pos ended]
  · rw [if_neg ended, if_neg ended]
    exact (ownTree_renamed row _ _ _).symm

end loop

/-- The loop is request-local, with one draft layer for all requests: whatever the layer's field
holds before the run or before a run of the prompt alone, and whatever the other prompts and trees
are, a request of the batch reaches the state it reaches alone, and its output is that of plain
greedy decoding. -/
theorem eagle3_request_local (layer : EaLayer H D) (held : Option D)
    (drafts : ∀ cache hiddenStates input next,
      Verifiable (layer.network cache hiddenStates (input ++ [next])).1 next)
    (positive : 0 < limits.maxNewTokens) (prompts : List (List Nat))
    (nonempty : ∀ prompt ∈ prompts, prompt ≠ []) (rounds row : Nat) (prompt : List Nat)
    (listed : prompts[row]? = some prompt) :
    ∃ states alone,
      generateDrafts limits net hidden zero padTokenId layer rounds prompts = .ok states ∧
      generateDrafts limits net hidden zero padTokenId { layer with stableKv := held } rounds [prompt] =
        .ok [alone] ∧
      states[row]? = some { alone with conversation := row } ∧
      Serves limits net row prompt { alone.toRequest with conversation := row } := by
  have own : ∀ (layer' : EaLayer H D) (batch : List (List Nat)), layer'.network = layer.network →
      (∀ prompt ∈ batch, prompt ≠ []) →
      generateDrafts limits net hidden zero padTokenId layer' rounds batch = .ok ((batch.mapIdx
        (initialDraft net hidden layer.network)).map (advanceDraft limits net hidden layer.network)^[rounds]) := by
    intro layer' batch network filled
    obtain ⟨held', started⟩ := @generateDrafts_eq _ _ _ limits net hidden zero padTokenId layer' rounds batch filled
    rw [started, network]
    refine draftLoop_own drafts rounds fun state member => ?_
    obtain ⟨row, inside, rfl⟩ := List.mem_mapIdx.mp member
    exact ⟨row, _, initialDraft_serves drafts positive⟩
  have renamed := ((@advanceDraft_renamed _ _ _ limits net hidden layer.network row).iterate_right rounds
    (initialDraft net hidden layer.network 0 prompt)).symm
  have initial : ({ initialDraft net hidden layer.network 0 prompt with conversation := row } : Drafting Kv D) =
      initialDraft net hidden layer.network row prompt := (ownTree_renamed row _ _ _).symm
  have served : ∀ rounds, Serves limits net row prompt ((advanceDraft limits net hidden layer.network)^[rounds]
      (initialDraft net hidden layer.network row prompt)).toRequest := by
    intro rounds
    induction rounds with
    | zero => exact initialDraft_serves drafts positive
    | succ rounds ih =>
      rw [Function.iterate_succ_apply']
      exact advanceDraft_serves drafts ih
  simp only [initial] at renamed
  refine ⟨_, _, own layer prompts rfl nonempty, own _ [prompt] rfl fun other member =>
    nonempty other (List.mem_singleton.mp member ▸ List.mem_of_getElem? listed), ?_, ?_⟩
  · rw [List.getElem?_map, List.getElem?_mapIdx, listed]
    exact congrArg some renamed
  · have reached := served rounds
    rw [renamed] at reached
    exact reached

/-- A layer that guesses from what it keeps and from the hidden states, and keeps both. -/
def guessing : EaLayer Nat (List Nat) where
  stableKv := some [7]
  network := fun cache hiddenStates input =>
    (Tree.pair (input.getLastD 0) (((cache.getD []).sum + hiddenStates.sum) % 5), some (cache.getD [] ++ hiddenStates))

/-- The second of these prompts on its own, with an empty field and after another batch. -/
theorem eagle3_request_local_small : ∃ states alone,
    generateDrafts ⟨4, (· == 2), 100⟩ counting Query.position 0 0 guessing 4 [[1], [2, 0]] = .ok states ∧
      generateDrafts ⟨4, (· == 2), 100⟩ counting Query.position 0 0 { guessing with stableKv := none } 4 [[2, 0]] =
        .ok [alone] ∧
      states[1]? = some { alone with conversation := 1 } ∧
      Serves ⟨4, (· == 2), 100⟩ counting 1 [2, 0] { alone.toRequest with conversation := 1 } :=
  @eagle3_request_local Nat Nat (List Nat) ⟨4, (· == 2), 100⟩ counting Query.position 0 0 guessing none
    (fun cache hiddenStates input next => by
      have last : (input ++ [next]).getLastD 0 = next := by simp
      simp only [guessing, last]
      exact pair_verifiable next _)
    (by decide) [[1], [2, 0]] (by decide) 4 1 [2, 0] rfl

example : (generateDrafts ⟨4, (· == 2), 100⟩ counting Query.position 0 0 guessing 4 [[1], [2, 0]]).map
    (List.map (fun state => (state.outputIds, state.draftCache))) =
      .ok [([1, 2], some [0, 1]), ([1, 3, 1, 0], some [0, 1, 2, 3, 4])] := by rfl

end runs

end SpecBlock.Eagle3
