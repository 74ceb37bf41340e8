import SpecBlock.Batch.CachedRun
import SpecBlock.Draft.InitialDrafts

/-!
# The decode loop driving both caches

`generate_conversations` moves a target cache and a draft cache with the same requests. After
the prompts are prefilled and drafted, each round stages the trees, commits the accepted paths
of the requests that go on, gathers their rows in both caches, drops the failed blocks and
drafts the accepted chains. Each of these is one step here, and a step whose checks fail ends
the run with the error.

Decisions are any root paths of the staged trees, and trees any that fit the declared width.
Layer writes of the target change its storage only.
-/

namespace SpecBlock.Draft

open Serving Batch Rows

variable {E H : Type} [Zero E]

/-- Sizes of the two models; a draft model has a layer. -/
structure Models where
  K : Nat
  draftLayers : Nat
  targetLayers : Nat
  layered : 0 < draftLayers

/-- A decision with the hidden row of each node of its path. -/
structure Decision (H : Type) extends Accepted H where
  covered : hidden.length = acceptedTokenIds.length + 1

/-- What a decision hands to the draft. -/
def Decision.chain (decision : Decision H) : AcceptedChain (List H) where
  tokens := decision.acceptedTokenIds
  lastToken := decision.nextToken
  hidden := decision.hidden.dropLast
  lastHidden := decision.hidden.getLastD []
  finished := false
  covered := by simp [decision.covered]

/-- A request between prefill and its last round, with its draft position. -/
structure ActiveRequest extends RequestState where
  draftPosition : Nat

/-- Where the loop stands. Survivors of a round wait in their old rows until they are gathered;
their decisions are kept until they are drafted. -/
inductive LoopPhase (H : Type)
  | prefilling
  | drafting (sources : List Nat) (requests : List (InitialRequest (List H))) (chunk : Nat)
  | ready
  | staged
  | committed (rows : List Nat) (decisions : List (Decision H))
  | compacted (decisions : List (Decision H))
  | rolledBack (decisions : List (Decision H))

/-- The active requests and both caches. -/
structure LoopState (E H : Type) where
  phase : LoopPhase H
  active : List ActiveRequest
  target : DenseTargetCache E
  draft : DraftBatchCache (CrossSlot (List H))

/-- A run goes on or ends with an error. -/
inductive LoopOutcome (E H : Type)
  | running (state : LoopState E H)
  | failed (reason : String)

/-- The outcome of a step whose checks may fail. -/
def LoopOutcome.ofResult : Except String (LoopState E H) → LoopOutcome E H
  | .ok state => .running state
  | .error reason => .failed reason

/-- A request with a new tree. -/
def ActiveRequest.withTree (request : ActiveRequest) (tree : Tree) : ActiveRequest :=
  { request with tree := some tree }

/-- A request once its decision was committed. -/
def ActiveRequest.committed (settings : Settings) (request : ActiveRequest)
    (decision : Decision H) : ActiveRequest :=
  { request with
    toRequestState := commitRequest settings request.toRequestState decision.toAccepted }

/-- What a request brings to the next draft. -/
def loopRequests (active : List ActiveRequest) (decisions : List (Decision H)) :
    List (DraftRequest (List H)) :=
  List.zipWith (fun request decision => ⟨request.draftPosition, decision.chain⟩) active decisions

/-- A request once its accepted chain was drafted. -/
def ActiveRequest.drafted (request : ActiveRequest) (decision : Decision H) (tree : Tree) :
    ActiveRequest :=
  { request with
    currentToken := some decision.nextToken
    tree := some tree
    draftPosition := (⟨request.draftPosition, decision.chain⟩ : DraftRequest (List H)).nextPosition }

section operations

variable (settings : Settings) (models : Models) (prompts : List (List Nat))

/-- Before the prefill pass. There is no draft cache yet; an empty one stands for it. -/
def initialLoopState (sharedStorage : Bool) (maxTreeWidth : Nat) : LoopState E H where
  phase := .prefilling
  active := []
  target := (DenseTargetCache.new sharedStorage models.targetLayers prompts.length
    (promptWidth prompts) settings.maxNewTokens maxTreeWidth).preparePrefill
  draft := DraftBatchCache.new models.draftLayers 0 0

/-- The requests after the prefill pass, before the unfinished ones are ordered. -/
def prefilledStates (firstTokens : Nat → Nat) : List RequestState :=
  prompts.mapIdx (fun request prompt => prefilled settings prompt (firstTokens request))

/-- Begin to draft the prompts of the unfinished requests. -/
def beginDrafting (sources : List Nat) (requests : List (InitialRequest (List H)))
    (state : LoopState E H) : LoopState E H :=
  { state with
    phase := .drafting sources requests 0
    active := requests.map (fun request =>
      ⟨prefilled settings request.promptIds request.currentToken, 0⟩)
    draft := initialCache models.K models.draftLayers settings.maxNewTokens requests }

/-- Draft one chunk of the prompts. -/
def draftPrompts (sources : List Nat) (requests : List (InitialRequest (List H))) (chunk : Nat)
    (state : LoopState E H) : Except String (LoopState E H) := do
  let draft ← draftChunk models.K requests (chunk * 64) state.draft
  return { state with phase := .drafting sources requests (chunk + 1), draft := draft }

/-- The prompts are drafted: build the first trees and gather the target's rows. -/
def finishDrafting (sources : List Nat) (requests : List (InitialRequest (List H)))
    (trees : List Tree) (state : LoopState E H) : LoopState E H :=
  { state with
    phase := .ready
    active := List.zipWith ActiveRequest.withTree
      (List.zipWith (fun (request : ActiveRequest) (initial : InitialRequest (List H)) =>
        { request with draftPosition := initial.total }) state.active requests) trees
    target := state.target.compactRows sources }

/-- Requests with their trees, in batch order. -/
def LoopState.requests (state : LoopState E H) : List (Tree × Nat) :=
  (state.active.map ActiveRequest.toRequestState).filterMap Batch.staged

/-- Width of the packed trees. -/
def LoopState.treeWidth (state : LoopState E H) : Nat :=
  (packTrees state.requests settings.padTokenId).treeWidth

/-- Stage the trees of a round. -/
def stageTrees (state : LoopState E H) : Except String (LoopState E H) := do
  let target ← state.target.prepareTree (state.treeWidth settings)
    (state.active.map (fun request => request.targetPrefixLen))
    (commitReserve state.requests (state.treeWidth settings))
  return { state with phase := .staged, target := target }

/-- Commit the accepted paths of the requests that go on. -/
def commitRound (decisions : List (Decision H)) (state : LoopState E H) :
    Except String (LoopState E H) := do
  let current := state.active.map ActiveRequest.toRequestState
  let accepted := decisions.map Decision.toAccepted
  let rows := nextActiveRows settings current accepted
  let target ← state.target.commitPaths (pendingCommits settings current accepted)
  return {
    phase := .committed rows (gather rows decisions)
    active := gather rows (List.zipWith (ActiveRequest.committed settings) state.active decisions)
    target := target.1
    draft := state.draft }

/-- Gather the rows of the requests that go on. -/
def compactLoop (rows : List Nat) (decisions : List (Decision H)) (state : LoopState E H) :
    LoopState E H :=
  { state with
    phase := .compacted decisions
    target := state.target.compactRows rows
    draft := state.draft.compactRows rows }

/-- Drop the failed blocks. -/
def rollbackLoop (decisions : List (Decision H)) (state : LoopState E H) :
    Except String (LoopState E H) := do
  let draft ← rollbackRejected models.K state.draft (loopRequests state.active decisions)
  return { state with phase := .rolledBack decisions, draft := draft }

/-- Draft the accepted chains and build the next trees. -/
def draftAccepted (decisions : List (Decision H)) (trees : List Tree) (state : LoopState E H) :
    Except String (LoopState E H) := do
  let requests := loopRequests state.active decisions
  let draft ← runRaggedDraftForward models.K state.draft (requests.map DraftRequest.hiddenRow)
    (requests.map DraftRequest.tokenRow) (requests.map DraftRequest.startPosition)
    (requests.map DraftRequest.validLength)
  return { state with
    phase := .ready
    active := List.zipWith (fun (request : ActiveRequest) (drafted : Decision H × Tree) =>
      request.drafted drafted.1 drafted.2) state.active (decisions.zip trees)
    draft := draft }

/-- A tree for each active request, within the declared width. -/
structure TreesFit (maxTreeWidth : Nat) (active : List ActiveRequest) (trees : List Tree) :
    Prop where
  each : trees.length = active.length
  fit : ∀ tree ∈ trees, tree.width ≤ maxTreeWidth ∧ ∃ current, tree.WellFormed current

/-- A decision for each active request: a root path of its tree. -/
structure DecisionsFit (active : List ActiveRequest) (decisions : List (Decision H)) : Prop where
  each : decisions.length = active.length
  onTree : ∀ (row : Nat) (request : ActiveRequest) (decision : Decision H) (tree : Tree),
    active[row]? = some request → decisions[row]? = some decision → request.tree = some tree →
      ∃ path, decision.toAccepted.OnTree tree path

/-- One operation of the loop. -/
inductive LoopStep (maxTreeWidth : Nat) : LoopOutcome E H → LoopOutcome E H → Prop
  | write (state : LoopState E H) (index batch queryLen positions : Nat) (entries : Storage E)
      (target : DenseTargetCache E) (phase : state.phase = .prefilling ∨ state.phase = .staged)
      (result : state.target.updateLayer index batch queryLen positions entries = .ok target) :
      LoopStep maxTreeWidth (.running state) (.running { state with target := target })
  | begin (state : LoopState E H) (firstTokens : Nat → Nat)
      (requests : List (InitialRequest (List H))) (phase : state.phase = .prefilling)
      (entries : requests.map (fun request => (request.promptIds, request.currentToken)) =
        (initialEntries (prefilledStates settings prompts firstTokens)).map
          (fun request => (prompts.getD request [], firstTokens request))) :
      LoopStep maxTreeWidth (.running state) (.running (beginDrafting settings models
        (initialEntries (prefilledStates settings prompts firstTokens)) requests state))
  | draftPrompts (state : LoopState E H) (sources : List Nat)
      (requests : List (InitialRequest (List H))) (chunk : Nat)
      (phase : state.phase = .drafting sources requests chunk)
      (left : chunk * 64 < maximum (requests.map InitialRequest.total)) :
      LoopStep maxTreeWidth (.running state)
        (.ofResult (draftPrompts models sources requests chunk state))
  | finish (state : LoopState E H) (sources : List Nat)
      (requests : List (InitialRequest (List H))) (chunk : Nat) (trees : List Tree)
      (phase : state.phase = .drafting sources requests chunk)
      (done : maximum (requests.map InitialRequest.total) ≤ chunk * 64)
      (fit : TreesFit maxTreeWidth state.active trees) :
      LoopStep maxTreeWidth (.running state) (.running (finishDrafting sources requests trees state))
  | stage (state : LoopState E H) (phase : state.phase = .ready) (some : state.active ≠ []) :
      LoopStep maxTreeWidth (.running state) (.ofResult (stageTrees settings state))
  | commit (state : LoopState E H) (decisions : List (Decision H)) (phase : state.phase = .staged)
      (fit : DecisionsFit state.active decisions) :
      LoopStep maxTreeWidth (.running state) (.ofResult (commitRound settings decisions state))
  | compact (state : LoopState E H) (rows : List Nat) (decisions : List (Decision H))
      (phase : state.phase = .committed rows decisions) (some : rows ≠ []) :
      LoopStep maxTreeWidth (.running state) (.running (compactLoop rows decisions state))
  | rollback (state : LoopState E H) (decisions : List (Decision H))
      (phase : state.phase = .compacted decisions) :
      LoopStep maxTreeWidth (.running state) (.ofResult (rollbackLoop models decisions state))
  | draftAccepted (state : LoopState E H) (decisions : List (Decision H)) (trees : List Tree)
      (phase : state.phase = .rolledBack decisions) (fit : TreesFit maxTreeWidth state.active trees) :
      LoopStep maxTreeWidth (.running state)
        (.ofResult (draftAccepted models decisions trees state))

/-- Runs of the loop on a batch of prompts. -/
def cacheLoop (maxTreeWidth : Nat) : System (LoopOutcome E H) where
  start := fun outcome => ∃ sharedStorage, outcome =
    .running (initialLoopState settings models prompts sharedStorage maxTreeWidth)
  step := LoopStep settings models prompts maxTreeWidth

end operations

/-- The draft row of an active request: survivors that were not gathered are in their old rows. -/
def LoopState.draftRow (state : LoopState E H) (position : Nat) : Option Nat :=
  match state.phase with
  | .committed rows _ => rows[position]?
  | _ => some position

end SpecBlock.Draft
