import SpecBlock.Foundation.Runs
import SpecBlock.Batch.CacheOperations
import SpecBlock.Batch.Generation
import SpecBlock.Batch.SamplingLaw

/-!
# The decode loop driving its target cache

`generate_conversations` moves its requests and its target cache together: the
prefill writes every prompt, the unfinished requests are gathered in their
initial order, and each round stages the active trees, writes them layer by layer
during the target pass, commits the accepted paths of the surviving requests and
gathers their rows. Each of these is one step here.

The target model is outside the repository. A step that writes a layer may write
anything that is right as long as what the target attends to is right; decisions
are any that greedy acceptance or sampling can return.
-/

namespace SpecBlock.Batch

open Rows

variable {E H : Type} [Zero E]

/-- Where the loop stands between two cache operations. -/
inductive Phase
  | prefilling (written : Nat)
  | ready
  | staged (written : Nat)
  | committed
  deriving DecidableEq

/-- The requests, the ones still decoding, the cache row of each, and the cache. -/
structure Config (E : Type) where
  phase : Phase
  round : Nat
  states : List RequestState
  active : List Nat
  rows : List Nat
  cache : DenseTargetCache E

/-- The key-value entry the target computes for the last of some tokens: by
request and layer. -/
abbrev Entries (E : Type) := Nat → Nat → List Nat → E

/-- Tokens whose entries are committed: the prompt and all but the last output. -/
def RequestState.committed (state : RequestState) : List Nat :=
  state.promptIds ++ state.outputTokens.dropLast

/-- A cache row holds the entries of a request's committed tokens, in order. -/
def HoldsRequest (kv : Entries E) (cache : DenseTargetCache E) (row request : Nat)
    (state : RequestState) : Prop :=
  Holds cache row state.targetPrefixLen
    (fun index column => kv request index (state.committed.take (column + 1)))

/-- Requests of the active list with their trees, in batch order. -/
def stagedRequests (config : Config E) : List (Tree × Nat) :=
  (gather config.active config.states).filterMap staged

/-- Decisions greedy acceptance or sampling can return for a staged batch. -/
inductive Decided (settings : Settings) (requests : List (Tree × Nat)) :
    List (Accepted H) → Prop
  | greedy (forward : Forward H) (results : List (Accepted H))
      (verified : verifyGreedy settings.acceptTopk settings.vocabSize settings.padTokenId requests
        forward = .ok results) : Decided settings requests results
  | sampled (probabilities : Nat → Nat → Nat → ℚ) (hidden : Nat → Nat → Nat → H)
      (results : List (Accepted H))
      (drawn : .ok results ∈ (acceptSamplingBatch settings.vocabSize (requests.map Prod.fst)
        (packTrees requests settings.padTokenId) probabilities
        ((List.range 3).map (fun source => (List.range requests.length).map (fun row =>
          (List.range (packTrees requests settings.padTokenId).treeWidth).map
            (hidden source row))))).outcomes) : Decided settings requests results

omit [Zero E] in
theorem Decided.onTree {settings : Settings} {requests : List (Tree × Nat)}
    {results : List (Accepted H)} (decided : Decided settings requests results)
    (wellFormed : ∀ request ∈ requests, ∃ current, request.1.WellFormed current) :
    results.length = requests.length ∧
      ∀ (row : Nat) (request : Tree × Nat) (accepted : Accepted H), requests[row]? = some request →
        results[row]? = some accepted → ∃ path, accepted.OnTree request.1 path := by
  cases decided with
  | greedy forward _ verified =>
    exact verifyGreedy_onTree _ _ _ requests forward results wellFormed verified
  | sampled probabilities hidden _ drawn =>
    obtain ⟨collected, same, lengths, onTree⟩ := acceptSamplingBatch_onTree settings.vocabSize
      settings.padTokenId requests probabilities _ wellFormed (by simp)
      (by simp [Function.comp_def]) _ drawn
    obtain rfl := Except.ok.inj same
    exact ⟨lengths, onTree⟩

/-- Whether the request in a row goes on after its decision. -/
def survives (settings : Settings) (current : List RequestState) (accepted : List (Accepted H))
    (row : Nat) : Bool :=
  match current[row]?, accepted[row]? with
  | some state, some decision => !(commitRequest settings state decision).finished
  | _, _ => false

/-- `next_active_rows`: the rows whose request goes on after its decision, in their old order. Both
caches are gathered by them. -/
def nextActiveRows (settings : Settings) (current : List RequestState)
    (accepted : List (Accepted H)) : List Nat :=
  (List.range current.length).filter (survives settings current accepted)

/-- `pending_commits`: the accepted path of each surviving row. -/
def pendingCommits (settings : Settings) (current : List RequestState)
    (accepted : List (Accepted H)) : List PendingCommit :=
  (nextActiveRows settings current accepted).map (fun row =>
    ⟨row, current[row]?.elim 0 RequestState.targetPrefixLen,
      accepted[row]?.elim [] Accepted.selectedPathIndices⟩)

/-- `commit_reserve`: no path is longer than the staged width or the widest tree. -/
def commitReserve (requests : List (Tree × Nat)) (treeWidth : Nat) : Nat :=
  min treeWidth (maximum (requests.map (fun request => request.1.retrieve.width)))

section run

variable (settings : Settings) (draft : Draft) (kv : Entries E) (prompts : List (List Nat))

/-- Width of the padded prompts. -/
def promptWidth (prompts : List (List Nat)) : Nat := maximum (prompts.map List.length)

/-- The cache before the prefill pass. -/
def initialConfig (sharedStorage : Bool) (numLayers maxTreeWidth : Nat) : Config E :=
  { phase := .prefilling 0
    round := 0
    states := []
    active := []
    rows := []
    cache := (DenseTargetCache.new sharedStorage numLayers prompts.length (promptWidth prompts)
      settings.maxNewTokens maxTreeWidth).preparePrefill }

/-- The requests after the prefill pass: drafted and in their initial order, each
still in the row of its prompt. -/
def started (target : Target H) (config : Config E) : Config E :=
  { config with
    phase := .committed
    states := (prefill settings target draft prompts).1
    active := (prefill settings target draft prompts).2
    rows := (prefill settings target draft prompts).2 }

/-- `prepare_tree` with the arguments of the loop. -/
def prepareRound (config : Config E) : Except String (DenseTargetCache E) :=
  let current := gather config.active config.states
  let requests := stagedRequests config
  let treeWidth := (packTrees requests settings.padTokenId).treeWidth
  config.cache.prepareTree treeWidth (current.map RequestState.targetPrefixLen)
    (commitReserve requests treeWidth)

/-- The requests after a round's decisions: survivors are still in their old rows. -/
def decidedConfig (accepted : List (Accepted H)) (cache : DenseTargetCache E)
    (config : Config E) : Config E :=
  let current := gather config.active config.states
  let rows := nextActiveRows settings current accepted
  let updates := (config.active.zip accepted).map (fun row =>
    advance settings draft (config.round + 1) row.1 row.2)
  { phase := .committed
    round := config.round + 1
    states := scatter config.active updates config.states
    active := gather rows config.active
    rows := rows
    cache := cache }

/-- The staged entries a layer's write must hold: the entry of each real node of
each active row. -/
def WritesTree (config : Config E) (index : Nat) (entries : Storage E) : Prop :=
  ∀ (row request : Nat) (state : RequestState) (tree : Tree) (node : Nat) (path : List Nat),
    config.active[row]? = some request → config.states[request]? = some state →
    state.tree = some tree → tree.rootPath node = some path →
    entries row node = kv request index (state.committed ++ tree.tokensAt path)

/-- Every active row holds its request's committed entries. -/
def RowsHold (config : Config E) : Prop :=
  ∀ (position request row : Nat) (state : RequestState),
    config.active[position]? = some request → config.rows[position]? = some row →
    config.states[request]? = some state → HoldsRequest kv config.cache row request state

/-- The layers below the given one hold the entries of the staged trees. -/
def TreesHold (config : Config E) (written : Nat) : Prop :=
  ∀ (index row request : Nat) (layer : Layer E) (state : RequestState) (tree : Tree) (node : Nat)
    (path : List Nat), index < written → config.cache.layers[index]? = some layer →
    config.active[row]? = some request → config.states[request]? = some state →
    state.tree = some tree → tree.rootPath node = some path →
    layer.entry row (config.cache.treeStart + node) =
      some (kv request index (state.committed ++ tree.tokensAt path))

/-- One cache operation of the loop. -/
inductive CacheStep : Config E → Config E → Prop
  | prefillLayer (config : Config E) (written : Nat) (entries : Storage E)
      (cache : DenseTargetCache E) (phase : config.phase = .prefilling written)
      (faithful : ∀ (request : Nat) (prompt : List Nat) (column : Nat),
        prompts[request]? = some prompt → column < prompt.length →
        entries request column = kv request written (prompt.take (column + 1)))
      (result : config.cache.updateLayer written prompts.length (promptWidth prompts)
        (promptWidth prompts) entries = .ok cache) :
      CacheStep config { config with phase := .prefilling (written + 1), cache := cache }
  | start (config : Config E) (target : Target H)
      (phase : config.phase = .prefilling config.cache.layers.length) :
      CacheStep config (started settings draft prompts target config)
  | compact (config : Config E) (phase : config.phase = .committed) (some_row : config.rows ≠ []) :
      CacheStep config
        { config with
          phase := .ready
          rows := List.range config.rows.length
          cache := config.cache.compactRows config.rows }
  | stage (config : Config E) (cache : DenseTargetCache E) (phase : config.phase = .ready)
      (result : prepareRound settings config = .ok cache) :
      CacheStep config { config with phase := .staged 0, cache := cache }
  | treeLayer (config : Config E) (written : Nat) (entries : Storage E)
      (cache : DenseTargetCache E) (phase : config.phase = .staged written)
      (faithful : RowsHold kv config → TreesHold kv config written →
        WritesTree kv config written entries)
      (result : config.cache.updateLayer written config.active.length config.cache.treeWidth
        config.cache.treeWidth entries = .ok cache) :
      CacheStep config { config with phase := .staged (written + 1), cache := cache }
  | commit (config : Config E) (accepted : List (Accepted H)) (cache : DenseTargetCache E)
      (counts : List Nat) (phase : config.phase = .staged config.cache.layers.length)
      (decided : Decided settings (stagedRequests config) accepted)
      (result : config.cache.commitPaths
        (pendingCommits settings (gather config.active config.states) accepted) =
          .ok (cache, counts)) :
      CacheStep config (decidedConfig settings draft accepted cache config)

/-- The loop on a batch of prompts, as a system of cache operations. -/
def cachedLoop : System (Config E) where
  start config := ∃ sharedStorage numLayers maxTreeWidth,
    config = initialConfig settings prompts sharedStorage numLayers maxTreeWidth
  step := CacheStep (H := H) settings draft kv prompts

end run

end SpecBlock.Batch
