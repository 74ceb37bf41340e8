import SpecBlock.Batch.CachedRun

/-!
# Every active row keeps its request's entries

The invariant of the cached loop, phase by phase. While the prompts are written
each written layer holds them. From then on every active row holds the entries of
its request's committed tokens in each layer; between staging and commit the
layers written so far also hold the staged trees, and no later write touches a
committed column.

Each cache operation keeps the invariant. The theorem at the end reads it off at
every configuration a run reaches.
-/

namespace SpecBlock.Batch

open Rows

variable {E H : Type} [Zero E]

/-- An active request: its committed tokens fill its prefix, and its tree is
drafted from its last output token. -/
structure RequestState.Serving (state : RequestState) (prompts : List (List Nat))
    (request : Nat) : Prop where
  owner : prompts[request]? = some state.promptIds
  width : state.targetPrefixLen = state.committed.length
  drafted : ∃ current tree, state.outputTokens.getLast? = some current ∧
    state.tree = some tree ∧ tree.WellFormed current

section invariant

variable (settings : Settings) (kv : Entries E) (prompts : List (List Nat))

/-- While prompts are written: written layers hold every prompt. -/
structure Prefilled (config : Config E) (written : Nat) : Prop where
  idle : config.active = []
  covered : config.cache.committedWidth = promptWidth prompts
  fits : ∀ layer ∈ config.cache.layers, config.cache.capacity ≤ layer.maxCacheLen
  plans : ∀ layer ∈ config.cache.layers, layer.plan.writeStart = 0
  layers : ∀ index layer, index < written → config.cache.layers[index]? = some layer →
    prompts.length ≤ layer.maxBatchSize ∧
    ∀ request prompt, prompts[request]? = some prompt → ∀ column < prompt.length,
      layer.entry request column = some (kv request index (prompt.take (column + 1)))

/-- Once decoding: active requests are served, and their rows hold their entries. -/
structure Decoding (config : Config E) : Prop where
  fits : ∀ layer ∈ config.cache.layers, config.cache.capacity ≤ layer.maxCacheLen
  enough : ∀ layer ∈ config.cache.layers, config.rows.length ≤ layer.maxBatchSize
  distinct : config.active.Nodup
  paired : config.rows.length = config.active.length
  serving : ∀ request ∈ config.active, ∃ state, config.states[request]? = some state ∧
    state.Serving prompts request
  hold : RowsHold kv config

/-- Active requests sit in the leading rows, in order. -/
structure InPlace (config : Config E) : Prop where
  rows : config.rows = List.range config.active.length
  batch : config.cache.activeBatchSize = config.active.length

/-- A staged tree has room, and no layer's write will touch a committed column. -/
structure Planned (config : Config E) : Prop where
  width : config.cache.treeWidth =
    (packTrees (stagedRequests config) settings.padTokenId).treeWidth
  room : config.cache.treeStart + config.cache.treeWidth ≤ config.cache.capacity
  plans : ∀ layer ∈ config.cache.layers, layer.plan.writeStart = config.cache.treeStart ∧
    ∀ row request state, config.active[row]? = some request →
      config.states[request]? = some state → layer.plan.Protects row state.targetPrefixLen

/-- The invariant of the cached loop. -/
def CacheInvariant (config : Config E) : Prop :=
  match config.phase with
  | .prefilling written => Prefilled kv prompts config written
  | .ready => Decoding kv prompts config ∧ InPlace config
  | .staged written => Decoding kv prompts config ∧ InPlace config ∧ Planned settings config ∧
      TreesHold kv config written
  | .committed => Decoding kv prompts config ∧
      ∀ request ∈ config.active, ∀ state, config.states[request]? = some state →
        state.targetPrefixLen ≤ config.cache.committedWidth

end invariant

variable {settings : Settings} {kv : Entries E} {prompts : List (List Nat)} {draft : Draft}

omit [Zero E] in
theorem initialConfig_invariant (sharedStorage : Bool) (numLayers maxTreeWidth : Nat) :
    CacheInvariant settings kv prompts
      (initialConfig settings prompts sharedStorage numLayers maxTreeWidth) := by
  refine ⟨rfl, rfl, ?_, ?_, fun _ _ impossible => absurd impossible (Nat.not_lt_zero _)⟩
  · intro layer member
    simp only [initialConfig, DenseTargetCache.preparePrefill, DenseTargetCache.syncLayerState,
      DenseTargetCache.new, List.map_replicate] at member ⊢
    rw [List.eq_of_mem_replicate member]
  · intro layer member
    simp only [initialConfig, DenseTargetCache.preparePrefill, DenseTargetCache.syncLayerState,
      DenseTargetCache.new, List.map_replicate] at member
    rw [List.eq_of_mem_replicate member]

theorem prefillLayer_invariant {config : Config E} {written : Nat} {entries : Storage E}
    {cache : DenseTargetCache E} (prefilled : Prefilled kv prompts config written)
    (faithful : ∀ (request : Nat) (prompt : List Nat) (column : Nat),
      prompts[request]? = some prompt → column < prompt.length →
      entries request column = kv request written (prompt.take (column + 1)))
    (result : config.cache.updateLayer written prompts.length (promptWidth prompts)
      (promptWidth prompts) entries = .ok cache) :
    Prefilled kv prompts
      { config with phase := .prefilling (written + 1), cache := cache } (written + 1) := by
  obtain ⟨layers, _, rfl⟩ := DenseTargetCache.updateLayer_fields result
  refine ⟨prefilled.idle, prefilled.covered, ?_, ?_, ?_⟩
  · intro layer member
    obtain ⟨index, read⟩ := List.getElem?_of_mem member
    obtain ⟨before, atIndex, -, length, -⟩ := DenseTargetCache.updateLayer_layer result index layer read
    rw [length]
    exact prefilled.fits before (List.mem_of_getElem? atIndex)
  · intro layer member
    obtain ⟨index, read⟩ := List.getElem?_of_mem member
    obtain ⟨before, atIndex, plan, -⟩ := DenseTargetCache.updateLayer_layer result index layer read
    rw [plan]
    exact prefilled.plans before (List.mem_of_getElem? atIndex)
  · intro index layer below read
    obtain ⟨before, atIndex, -, -, -, others, stored, room, kept⟩ :=
      DenseTargetCache.updateLayer_layer result index layer read
    by_cases here : index = written
    · refine ⟨room here, ?_⟩
      intro request prompt atPrompt column inside
      have row : request < prompts.length := (List.getElem?_eq_some_iff.mp atPrompt).1
      have wide : prompt.length ≤ promptWidth prompts :=
        le_maximum _ _ (List.mem_map_of_mem (List.mem_of_getElem? atPrompt))
      have written' := stored here request row column (by omega)
      rw [prefilled.plans before (List.mem_of_getElem? atIndex), Nat.zero_add] at written'
      rw [written', faithful request prompt column atPrompt inside, here]
    · obtain ⟨enough, held⟩ := prefilled.layers index before (by omega) atIndex
      exact ⟨kept enough, fun request prompt atPrompt column inside =>
        others here request column _ (held request prompt atPrompt column inside)⟩

omit [Zero E] in
/-- A prefilled request is served: its prompt is what is committed. -/
theorem prefilled_serving (target : Target H) (trees : draft.WellFormed) (request : Nat)
    (prompt : List Nat) (atPrompt : prompts[request]? = some prompt) :
    ({ prefilled settings prompt (target.prefill prompts request) with
        tree := some (draft 0 request
          (prefilled settings prompt (target.prefill prompts request))) } :
      RequestState).Serving prompts request :=
  ⟨atPrompt, by simp [prefilled, RequestState.committed],
    target.prefill prompts request, _, rfl, rfl, trees 0 request _ _ rfl⟩

omit [Zero E] in
/-- Once every layer holds the prompts, the active requests hold theirs. -/
theorem started_invariant {config : Config E} (target : Target H) (trees : draft.WellFormed)
    (prefilled : Prefilled kv prompts config config.cache.layers.length) :
    Decoding kv prompts (started settings draft prompts target config) ∧
      ∀ request ∈ (started settings draft prompts target config).active, ∀ state,
        (started settings draft prompts target config).states[request]? = some state →
          state.targetPrefixLen ≤ config.cache.committedWidth := by
  obtain ⟨-, distinct, entered, -⟩ := prefill_rows settings target draft prompts
  have inside : ∀ layer ∈ config.cache.layers, ∃ index < config.cache.layers.length,
      config.cache.layers[index]? = some layer := by
    intro layer member
    obtain ⟨index, read⟩ := List.getElem?_of_mem member
    exact ⟨index, (List.getElem?_eq_some_iff.mp read).1, read⟩
  refine ⟨⟨prefilled.fits, ?_, distinct, rfl, ?_, ?_⟩, ?_⟩
  · intro layer member
    obtain ⟨index, bound, read⟩ := inside layer member
    have few : (prefill settings target draft prompts).2.length ≤ prompts.length := by
      have subset : (prefill settings target draft prompts).2 ⊆ List.range prompts.length := by
        intro request active
        obtain ⟨prompt, atPrompt, -⟩ := entered request active
        exact List.mem_range.mpr (List.getElem?_eq_some_iff.mp atPrompt).1
      simpa using (distinct.subperm subset).length_le
    exact few.trans (prefilled.layers index layer bound read).1
  · intro request member
    obtain ⟨prompt, atPrompt, -, atState⟩ := entered request member
    exact ⟨_, atState, prefilled_serving target trees request prompt atPrompt⟩
  · intro position request row state atActive atRow atState
    obtain rfl : request = row := Option.some.inj (atActive.symm.trans atRow)
    obtain ⟨prompt, atPrompt, -, own⟩ := entered request (List.mem_of_getElem? atActive)
    obtain rfl := Option.some.inj (own.symm.trans atState)
    intro index layer read column below
    have bound := (List.getElem?_eq_some_iff.mp read).1
    have held := (prefilled.layers index layer bound read).2 request prompt atPrompt column below
    simpa [RequestState.committed, Batch.prefilled] using held
  · intro request member state atState
    obtain ⟨prompt, atPrompt, -, own⟩ := entered request member
    obtain rfl := Option.some.inj (own.symm.trans atState)
    rw [prefilled.covered]
    exact le_maximum _ _ (List.mem_map_of_mem (List.mem_of_getElem? atPrompt))

omit [Zero E] in
theorem compact_invariant {config : Config E} (decoding : Decoding kv prompts config)
    (covered : ∀ request ∈ config.active, ∀ state, config.states[request]? = some state →
      state.targetPrefixLen ≤ config.cache.committedWidth) :
    Decoding kv prompts { config with
        phase := .ready
        rows := List.range config.rows.length
        cache := config.cache.compactRows config.rows } ∧
      InPlace { config with
        phase := .ready
        rows := List.range config.rows.length
        cache := config.cache.compactRows config.rows } := by
  obtain ⟨batch, capacity, -⟩ := DenseTargetCache.compactRows_fields config.rows config.cache
  have moved := DenseTargetCache.compactRows_layer config.rows config.cache
  refine ⟨⟨?_, ?_, decoding.distinct, by simpa using decoding.paired, decoding.serving, ?_⟩, ?_⟩
  · intro layer member
    obtain ⟨index, read⟩ := List.getElem?_of_mem member
    obtain ⟨before, atIndex, length, -⟩ := moved index layer read
    rw [capacity, length]
    exact decoding.fits before (List.mem_of_getElem? atIndex)
  · intro layer member
    obtain ⟨index, read⟩ := List.getElem?_of_mem member
    obtain ⟨before, atIndex, -, rows, -⟩ := moved index layer read
    rw [rows, List.length_range]
    exact decoding.enough before (List.mem_of_getElem? atIndex)
  · intro position request row state atActive atRow atState
    dsimp only at atActive atRow atState
    have inside : position < config.rows.length := by
      simpa using (List.getElem?_eq_some_iff.mp atRow).1
    obtain rfl : position = row := by
      simpa [List.getElem?_range inside] using atRow
    intro index layer read column below
    obtain ⟨before, atIndex, -, -, entries⟩ := moved index layer read
    have atOld := List.getElem?_eq_getElem inside
    have wide := covered request (List.mem_of_getElem? atActive) state atState
    rw [entries position _ atOld column (by omega)]
    exact decoding.hold position request _ state atActive atOld atState index before atIndex column
      below
  · exact ⟨by simp [decoding.paired], by simp [batch, decoding.paired]⟩

section rows

variable {config : Config E} (decoding : Decoding kv prompts config)
include decoding

omit [Zero E] in
/-- The gathered state at a row is the state of the request listed there. -/
theorem Decoding.gathered (row request : Nat) (state : RequestState)
    (listed : config.active[row]? = some request) (read : config.states[request]? = some state) :
    (gather config.active config.states)[row]? = some state := by
  have inside : ∀ other ∈ config.active, other < config.states.length := by
    intro other member
    obtain ⟨own, atOwn, -⟩ := decoding.serving other member
    exact (List.getElem?_eq_some_iff.mp atOwn).1
  rw [gather_getElem? config.active config.states inside, listed]
  exact read

omit [Zero E] in
theorem Decoding.gathered_length :
    (gather config.active config.states).length = config.active.length := by
  refine gather_length config.active config.states (fun other member => ?_)
  obtain ⟨own, atOwn, -⟩ := decoding.serving other member
  exact (List.getElem?_eq_some_iff.mp atOwn).1

omit [Zero E] in
theorem Decoding.row (row request : Nat) (listed : config.active[row]? = some request) :
    ∃ state, config.states[request]? = some state ∧ state.Serving prompts request ∧
      (gather config.active config.states)[row]? = some state := by
  obtain ⟨state, read, serving⟩ := decoding.serving request (List.mem_of_getElem? listed)
  exact ⟨state, read, serving, decoding.gathered row request state listed read⟩

omit [Zero E] in
theorem Decoding.gathered_serving (state : RequestState)
    (member : state ∈ gather config.active config.states) :
    ∃ request, state.Serving prompts request := by
  obtain ⟨position, atPosition⟩ := List.getElem?_of_mem member
  have inside : position < config.active.length :=
    decoding.gathered_length ▸ (List.getElem?_eq_some_iff.mp atPosition).1
  obtain ⟨own, -, serving, atOwn⟩ := decoding.row position _ (List.getElem?_eq_getElem inside)
  obtain rfl := Option.some.inj (atOwn.symm.trans atPosition)
  exact ⟨_, serving⟩

omit [Zero E] in
/-- An active row stages its request's tree behind its committed tokens. -/
theorem Decoding.staged (row request : Nat) (state : RequestState) (tree : Tree)
    (listed : config.active[row]? = some request) (read : config.states[request]? = some state)
    (drafted : state.tree = some tree) :
    (stagedRequests config)[row]? = some (tree, state.targetPrefixLen) := by
  have total : ∀ other ∈ gather config.active config.states, (Batch.staged other).isSome := by
    intro other member
    obtain ⟨_, serving⟩ := decoding.gathered_serving other member
    obtain ⟨current, ownTree, -, ownDrafted, -⟩ := serving.drafted
    simp [Batch.staged, ownDrafted]
  rw [stagedRequests, filterMap_getElem? _ _ total,
    decoding.gathered row request state listed read]
  simp [Batch.staged, drafted]

/-- Staging keeps every committed column and plans the writes around them. -/
theorem stage_invariant (place : InPlace config) {cache : DenseTargetCache E}
    (result : prepareRound settings config = .ok cache) :
    Decoding kv prompts { config with phase := .staged 0, cache := cache } ∧
      InPlace { config with phase := .staged 0, cache := cache } ∧
      Planned settings { config with phase := .staged 0, cache := cache } := by
  obtain ⟨rfl, -⟩ := DenseTargetCache.prepareTree_ok result
  generalize packed : (packTrees (stagedRequests config) settings.padTokenId).treeWidth = treeWidth
  generalize reserved : commitReserve (stagedRequests config) treeWidth = reserve
  obtain ⟨batch, -, -, treeStart, width, -, -, -, capacity⟩ :=
    DenseTargetCache.placeTree_fields treeWidth reserve
      ((gather config.active config.states).map RequestState.targetPrefixLen) config.cache
  have placed := DenseTargetCache.placeTree_layer treeWidth reserve
    ((gather config.active config.states).map RequestState.targetPrefixLen) config.cache decoding.fits
  have prefixes : ∀ (row request : Nat) (state : RequestState), config.active[row]? = some request →
      config.states[request]? = some state →
      ((gather config.active config.states).map RequestState.targetPrefixLen)[row]? =
        some state.targetPrefixLen := by
    intro row request state listed read
    rw [List.getElem?_map, decoding.gathered row request state listed read]
    rfl
  refine ⟨⟨?_, ?_, decoding.distinct, decoding.paired, decoding.serving, ?_⟩,
    ⟨place.rows, by rw [batch]; exact place.batch⟩, ⟨?_, ?_, ?_⟩⟩
  · intro layer member
    obtain ⟨index, read⟩ := List.getElem?_of_mem member
    obtain ⟨before, atIndex, -, enough, -⟩ := placed index layer read
    exact enough
  · intro layer member
    obtain ⟨index, read⟩ := List.getElem?_of_mem member
    obtain ⟨before, atIndex, rows, -⟩ := placed index layer read
    rw [rows]
    exact decoding.enough before (List.mem_of_getElem? atIndex)
  · intro position request row state atActive atRow atState index layer read column below
    obtain rfl : position = row := by
      have inside : position < config.active.length := (List.getElem?_eq_some_iff.mp atActive).1
      have own : config.rows[position]? = some position := by
        rw [place.rows, List.getElem?_range inside]
      exact Option.some.inj (own.symm.trans atRow)
    obtain ⟨before, atIndex, -, -, -, kept⟩ := placed index layer read
    rw [(kept position _ (prefixes position request state atActive atState)).2 column below]
    exact decoding.hold position request position state atActive atRow atState index before atIndex
      column below
  · exact width.trans packed.symm
  · dsimp only
    rw [treeStart, width, capacity]
    split <;> omega
  · intro layer member
    obtain ⟨index, read⟩ := List.getElem?_of_mem member
    obtain ⟨before, -, -, -, start, kept⟩ := placed index layer read
    dsimp only
    rw [treeStart]
    exact ⟨start, fun row request state listed atState =>
      (kept row _ (prefixes row request state listed atState)).1⟩

/-- Writing one layer of the staged trees keeps the committed columns of every
layer and adds the layer's own staged entries. -/
theorem treeLayer_invariant (place : InPlace config) (planned : Planned settings config)
    {written : Nat} (trees : TreesHold kv config written) {entries : Storage E}
    {cache : DenseTargetCache E}
    (faithful : RowsHold kv config → TreesHold kv config written →
      WritesTree kv config written entries)
    (result : config.cache.updateLayer written config.active.length config.cache.treeWidth
      config.cache.treeWidth entries = .ok cache) :
    Decoding kv prompts { config with phase := .staged (written + 1), cache := cache } ∧
      InPlace { config with phase := .staged (written + 1), cache := cache } ∧
      Planned settings { config with phase := .staged (written + 1), cache := cache } ∧
      TreesHold kv { config with phase := .staged (written + 1), cache := cache } (written + 1) := by
  have right := faithful decoding.hold trees
  have updated := DenseTargetCache.updateLayer_layer result
  obtain ⟨layers, -, rfl⟩ := DenseTargetCache.updateLayer_fields result
  have sizes : config.rows.length = config.active.length := decoding.paired
  refine ⟨⟨?_, ?_, decoding.distinct, decoding.paired, decoding.serving, ?_⟩,
    ⟨place.rows, place.batch⟩, ⟨planned.width, planned.room, ?_⟩, ?_⟩
  · intro layer member
    obtain ⟨index, read⟩ := List.getElem?_of_mem member
    obtain ⟨before, atIndex, -, length, -⟩ := updated index layer read
    rw [length]
    exact decoding.fits before (List.mem_of_getElem? atIndex)
  · intro layer member
    obtain ⟨index, read⟩ := List.getElem?_of_mem member
    obtain ⟨before, atIndex, -, -, -, -, -, -, kept⟩ := updated index layer read
    have enough := decoding.enough before (List.mem_of_getElem? atIndex)
    exact sizes ▸ kept (sizes ▸ enough)
  · intro position request row state atActive atRow atState index layer read column below
    obtain ⟨before, atIndex, -, -, protectedEntries, -⟩ := updated index layer read
    have held := decoding.hold position request row state atActive atRow atState index before atIndex
      column below
    obtain rfl : position = row := by
      have inside : position < config.active.length := (List.getElem?_eq_some_iff.mp atActive).1
      have own : config.rows[position]? = some position := by
        rw [place.rows, List.getElem?_range inside]
      exact Option.some.inj (own.symm.trans atRow)
    exact protectedEntries position _
      ((planned.plans before (List.mem_of_getElem? atIndex)).2 position request state atActive
        atState) column below _ held
  · intro layer member
    obtain ⟨index, read⟩ := List.getElem?_of_mem member
    obtain ⟨before, atIndex, plan, -⟩ := updated index layer read
    rw [plan]
    exact planned.plans before (List.mem_of_getElem? atIndex)
  · intro index row request layer state tree node path below read atActive atState drafted rooted
    obtain ⟨before, atIndex, -, -, -, others, stored, -⟩ := updated index layer read
    by_cases here : index = written
    · have active : row < config.active.length := (List.getElem?_eq_some_iff.mp atActive).1
      have real : node < config.cache.treeWidth := by
        obtain ⟨own, atOwn, serving, -⟩ := decoding.row row request atActive
        obtain rfl : own = state := Option.some.inj (atOwn.symm.trans atState)
        obtain ⟨current, ownTree, -, ownDrafted, wellFormed⟩ := serving.drafted
        obtain rfl : ownTree = tree := Option.some.inj (ownDrafted.symm.trans drafted)
        have listed := decoding.staged row request own ownTree atActive atState drafted
        have fits := width_le_treeWidth (stagedRequests config) settings.padTokenId _
          (List.mem_of_getElem? listed)
        rw [planned.width]
        exact (wellFormed.rootPath_inside rooted).trans_le fits
      have cell := stored here row active node real
      rw [(planned.plans before (List.mem_of_getElem? atIndex)).1] at cell
      rw [cell, right row request state tree node path atActive atState drafted rooted, here]
    · exact others here row _ _ (trees index row request before state tree node path (by omega)
        atIndex atActive atState drafted rooted)

variable {accepted : List (Accepted H)} (decided : Decided settings (stagedRequests config) accepted)

omit [Zero E] in
include decided in
/-- A row that goes on has a served request and a decision along its tree. -/
theorem Decoding.survivor (row : Nat)
    (alive : row ∈ nextActiveRows settings (gather config.active config.states) accepted) :
    ∃ request state decision tree path, config.active[row]? = some request ∧
      config.states[request]? = some state ∧ state.Serving prompts request ∧
      (gather config.active config.states)[row]? = some state ∧ accepted[row]? = some decision ∧
      (commitRequest settings state decision).finished = false ∧ state.tree = some tree ∧
      decision.OnTree tree path := by
  obtain ⟨listed, goesOn⟩ := List.mem_filter.mp alive
  have bound : row < config.active.length := by
    simpa [decoding.gathered_length] using listed
  have atActive := List.getElem?_eq_getElem bound
  obtain ⟨state, atState, serving, gathered⟩ := decoding.row row _ atActive
  obtain ⟨current, tree, -, drafted, -⟩ := serving.drafted
  have staged := decoding.staged row _ state tree atActive atState drafted
  have wellFormed : ∀ request ∈ stagedRequests config, ∃ current, request.1.WellFormed current := by
    intro request member
    obtain ⟨other, gatheredOther, shape⟩ := List.mem_filterMap.mp member
    obtain ⟨_, otherServing⟩ := decoding.gathered_serving other gatheredOther
    obtain ⟨first, otherTree, -, otherDrafted, otherWellFormed⟩ := otherServing.drafted
    obtain rfl : (otherTree, other.targetPrefixLen) = request := by
      simpa [Batch.staged, otherDrafted] using shape
    exact ⟨first, otherWellFormed⟩
  obtain ⟨lengths, onTree⟩ := decided.onTree wellFormed
  have inside : row < accepted.length :=
    lengths ▸ (List.getElem?_eq_some_iff.mp staged).1
  have atDecision := List.getElem?_eq_getElem inside
  obtain ⟨path, along⟩ := onTree row _ _ staged atDecision
  refine ⟨_, state, accepted[row], tree, path, atActive, atState, serving, gathered, atDecision, ?_,
    drafted, along⟩
  simpa [survives, gathered, atDecision] using goesOn

end rows

omit [Zero E] in
/-- A surviving request has committed its whole accepted path. -/
theorem advance_serving {state : RequestState} {request : Nat} (round : Nat) {tree : Tree}
    {path : List Nat} {decision : Accepted H} (trees : draft.WellFormed)
    (serving : state.Serving prompts request) (drafted : state.tree = some tree)
    (onTree : decision.OnTree tree path)
    (unfinished : (commitRequest settings state decision).finished = false) :
    (advance settings draft round request decision state).committed =
        state.committed ++ tree.tokensAt path ∧
      (advance settings draft round request decision state).targetPrefixLen =
        state.targetPrefixLen + path.length ∧
      (advance settings draft round request decision state).Serving prompts request := by
  obtain ⟨output, width⟩ := commitRequest_unfinished settings state decision unfinished
  obtain ⟨current, ownTree, last, ownDrafted, wellFormed⟩ := serving.drafted
  obtain rfl : ownTree = tree := Option.some.inj (ownDrafted.symm.trans drafted)
  have ended : state.outputTokens = state.outputTokens.dropLast ++ [current] :=
    (List.dropLast_append_getLast? current (by simpa using last)).symm
  have stepped : advance settings draft round request decision state =
      draftNext draft round request decision.nextToken (commitRequest settings state decision) := by
    rw [advance, if_neg (Bool.eq_false_iff.mp unfinished)]
  have committed : (draftNext draft round request decision.nextToken
      (commitRequest settings state decision)).committed = state.committed ++ ownTree.tokensAt path := by
    simp only [draftNext, RequestState.committed, output, Accepted.proposed, ← List.append_assoc,
      List.dropLast_concat]
    rw [onTree.spelled wellFormed]
    conv_lhs => rw [ended]
    simp [commitRequest]
  have grown : (draftNext draft round request decision.nextToken
      (commitRequest settings state decision)).targetPrefixLen =
        state.targetPrefixLen + path.length := by
    simp only [draftNext, width, onTree.indices, List.length_map]
  rw [stepped]
  refine ⟨committed, grown, serving.owner, ?_, decision.nextToken, _, ?_, rfl, trees _ _ _ _ rfl⟩
  · rw [grown, committed, List.length_append, serving.width, Tree.tokensAt, List.length_map]
  · simp [draftNext, output, Accepted.proposed]

omit [Zero E] in
/-- A surviving row commits its accepted path behind its prefix. -/
theorem pendingCommits_mem (settings : Settings) {current : List RequestState}
    {accepted : List (Accepted H)} (row : Nat) (state : RequestState) (decision : Accepted H)
    (path : List Nat) (alive : row ∈ nextActiveRows settings current accepted)
    (atState : current[row]? = some state) (atDecision : accepted[row]? = some decision)
    (indices : decision.selectedPathIndices = path.map Int.ofNat) :
    (⟨row, state.targetPrefixLen, path.map Int.ofNat⟩ : PendingCommit) ∈
      pendingCommits settings current accepted :=
  List.mem_map.mpr ⟨row, alive, by simp [atState, atDecision, indices]⟩

section commit

variable {config : Config E} (decoding : Decoding kv prompts config)
  {accepted : List (Accepted H)}
include decoding

omit [Zero E] in
theorem Decoding.survivor_position (position row : Nat)
    (atRow : (nextActiveRows settings (gather config.active config.states) accepted)[position]? =
      some row) :
    (gather (nextActiveRows settings (gather config.active config.states) accepted)
      config.active)[position]? = config.active[row]? := by
  rw [gather_getElem? _ _ (fun other member => ?_), atRow]
  · rfl
  · have listed := (List.mem_filter.mp member).1
    simpa [decoding.gathered_length] using listed

omit [Zero E] in
theorem Decoding.advanced (cache : DenseTargetCache E) (row request : Nat) (state : RequestState)
    (decision : Accepted H) (atActive : config.active[row]? = some request)
    (atState : config.states[request]? = some state) (atDecision : accepted[row]? = some decision) :
    (decidedConfig settings draft accepted cache config).states[request]? =
      some (advance settings draft (config.round + 1) request decision state) := by
  have paired : (config.active.zip accepted)[row]? = some (request, decision) :=
    List.getElem?_zip_eq_some.mpr ⟨atActive, atDecision⟩
  have written := scatter_getElem? config.active ((config.active.zip accepted).map (fun row =>
    advance settings draft (config.round + 1) row.1 row.2)) config.states decoding.distinct row request
    (advance settings draft (config.round + 1) request decision) atActive (by
      rw [List.getElem?_map, paired]
      rfl)
  rw [atState] at written
  exact written

variable (decided : Decided settings (stagedRequests config) accepted)
include decided

omit [Zero E] in
theorem Decoding.surviving (trees : draft.WellFormed) (cache : DenseTargetCache E) (row : Nat)
    (alive : row ∈ nextActiveRows settings (gather config.active config.states) accepted) :
    ∃ request state decision tree path state', config.active[row]? = some request ∧
      config.states[request]? = some state ∧ state.tree = some tree ∧
      (gather config.active config.states)[row]? = some state ∧ accepted[row]? = some decision ∧
      decision.OnTree tree path ∧ state.targetPrefixLen = state.committed.length ∧
      (decidedConfig settings draft accepted cache config).states[request]? = some state' ∧
      state'.committed = state.committed ++ tree.tokensAt path ∧
      state'.targetPrefixLen = state.targetPrefixLen + path.length ∧
      state'.Serving prompts request := by
  obtain ⟨request, state, decision, tree, path, atActive, atState, serving, gathered, atDecision,
    unfinished, drafted, onTree⟩ := decoding.survivor decided row alive
  obtain ⟨committed, width, served⟩ :=
    advance_serving (config.round + 1) trees serving drafted onTree unfinished
  exact ⟨request, state, decision, tree, path, _, atActive, atState, drafted, gathered, atDecision,
    onTree, serving.width, decoding.advanced cache row request state decision atActive atState
      atDecision, committed, width, served⟩

omit [Zero E] in
/-- A commit appends each surviving row's accepted path to its committed columns. -/
theorem commit_invariant (place : InPlace config) (planned : Planned settings config)
    (staged : TreesHold kv config config.cache.layers.length) (trees : draft.WellFormed)
    {cache : DenseTargetCache E} {counts : List Nat}
    (result : config.cache.commitPaths
      (pendingCommits settings (gather config.active config.states) accepted) = .ok (cache, counts)) :
    Decoding kv prompts (decidedConfig settings draft accepted cache config) ∧
      ∀ request ∈ (decidedConfig settings draft accepted cache config).active, ∀ state,
        (decidedConfig settings draft accepted cache config).states[request]? = some state →
          state.targetPrefixLen ≤ cache.committedWidth := by
  have pendingRows : (pendingCommits settings (gather config.active config.states) accepted).map
      PendingCommit.row = nextActiveRows settings (gather config.active config.states) accepted := by
    simp [pendingCommits, Function.comp_def]
  have rowsDistinct : (nextActiveRows settings (gather config.active config.states) accepted).Nodup :=
    List.nodup_range.filter _
  obtain ⟨-, capacity, -, -, -, wide⟩ := DenseTargetCache.commitPaths_fields result
  have layers := DenseTargetCache.commitPaths_layer result (pendingRows ▸ rowsDistinct)
  refine ⟨⟨?_, ?_, gather_nodup _ _ rowsDistinct decoding.distinct, ?_, ?_, ?_⟩, ?_⟩
  · intro layer member
    obtain ⟨index, read⟩ := List.getElem?_of_mem member
    obtain ⟨before, atIndex, length, -⟩ := layers index layer read
    exact capacity ▸ length ▸ decoding.fits before (List.mem_of_getElem? atIndex)
  · intro layer member
    obtain ⟨index, read⟩ := List.getElem?_of_mem member
    obtain ⟨before, atIndex, -, rows, -⟩ := layers index layer read
    have enough := decoding.enough before (List.mem_of_getElem? atIndex)
    have fewer : (nextActiveRows settings (gather config.active config.states) accepted).length ≤
        config.rows.length := by
      rw [decoding.paired, ← decoding.gathered_length]
      exact (List.length_filter_le _ _).trans_eq List.length_range
    rw [rows]
    exact fewer.trans enough
  · refine (gather_length _ _ (fun row alive => ?_)).symm
    obtain ⟨request, -, -, -, -, -, atActive, -⟩ := decoding.surviving decided trees cache row alive
    exact (List.getElem?_eq_some_iff.mp atActive).1
  · intro request member
    obtain ⟨row, alive, atActive⟩ := List.mem_filterMap.mp member
    obtain ⟨other, -, -, -, -, state', atOther, -, -, -, -, -, -, atState', -, -, serving⟩ :=
      decoding.surviving decided trees cache row alive
    obtain rfl : other = request := Option.some.inj (atOther.symm.trans atActive)
    exact ⟨state', atState', serving⟩
  · intro position request row final atPosition atRow atFinal index layer read column below
    have alive := List.mem_of_getElem? atRow
    obtain ⟨other, state, decision, tree, path, state', atActive, atState, drafted, gathered,
      atDecision, onTree, width, atState', committed, grown, -⟩ :=
      decoding.surviving decided trees cache row alive
    obtain rfl : other = request := by
      have same := decoding.survivor_position position row atRow
      exact Option.some.inj (atActive.symm.trans (same.symm.trans atPosition))
    obtain rfl : state' = final := Option.some.inj (atState'.symm.trans atFinal)
    obtain ⟨before, atIndex, -, -, untouched, copied⟩ := layers index layer read
    have here : config.rows[row]? = some row := by
      rw [place.rows, List.getElem?_range (List.getElem?_eq_some_iff.mp atActive).1]
    rw [committed]
    by_cases old : column < state.targetPrefixLen
    · -- A committed column: no copy is destined for it.
      have held := decoding.hold row other row state atActive here atState index before atIndex column
        old
      have same : (state.committed ++ tree.tokensAt path).take (column + 1) =
          state.committed.take (column + 1) := List.take_append_of_le_length (by omega)
      dsimp only at held ⊢
      rw [same, untouched row column, held]
      intro pending member sameRow
      obtain ⟨source, -, rfl⟩ := List.mem_map.mp member
      dsimp only at sameRow
      subst sameRow
      left
      simpa [gathered] using old
    · -- A new column receives the staged entry of its path's node.
      obtain ⟨offset, rfl⟩ := Nat.exists_eq_add_of_le (Nat.le_of_not_lt old)
      have onPath : offset < path.length := by omega
      have atNode := List.getElem?_eq_getElem onPath
      have rows : config.cache.activeBatchSize ≤ before.maxBatchSize := by
        rw [place.batch, ← decoding.paired]
        exact decoding.enough before (List.mem_of_getElem? atIndex)
      have room : config.cache.treeStart + config.cache.treeWidth ≤ before.maxCacheLen :=
        planned.room.trans (decoding.fits before (List.mem_of_getElem? atIndex))
      have cell := copied rows room _
        (pendingCommits_mem settings row state decision path alive gathered atDecision onTree.indices)
        offset path[offset] (by simp [onPath])
      have held := staged index row other before state tree _ _
        ((List.getElem?_eq_some_iff.mp atIndex).1) atIndex atActive atState drafted
        (onTree.prefixes offset _ atNode)
      have spelled : (state.committed ++ tree.tokensAt path).take
          (state.targetPrefixLen + offset + 1) =
            state.committed ++ tree.tokensAt (path.take (offset + 1)) := by
        rw [width, Nat.add_assoc, List.take_length_add_append, Tree.tokensAt, Tree.tokensAt,
          List.map_take]
      dsimp only
      rw [spelled, ← held]
      exact cell
  · intro request member final atFinal
    obtain ⟨row, alive, atActive⟩ := List.mem_filterMap.mp member
    obtain ⟨other, state, decision, tree, path, state', atOther, -, -, gathered, atDecision, onTree, -,
      atState', -, grown, -⟩ := decoding.surviving decided trees cache row alive
    obtain rfl : other = request := Option.some.inj (atOther.symm.trans atActive)
    obtain rfl : state' = final := Option.some.inj (atState'.symm.trans atFinal)
    have fits := wide _ (pendingCommits_mem settings row state decision path alive gathered
      atDecision onTree.indices)
    rw [grown]
    simpa using fits

end commit

theorem cacheStep_invariant (trees : draft.WellFormed) (config following : Config E)
    (invariant : CacheInvariant settings kv prompts config)
    (taken : CacheStep (H := H) settings draft kv prompts config following) :
    CacheInvariant settings kv prompts following := by
  cases taken with
  | prefillLayer written entries cache phase faithful result =>
    simp only [CacheInvariant, phase] at invariant
    exact prefillLayer_invariant invariant faithful result
  | start target phase =>
    simp only [CacheInvariant, phase] at invariant
    exact started_invariant target trees invariant
  | compact phase someRow =>
    simp only [CacheInvariant, phase] at invariant
    exact compact_invariant invariant.1 invariant.2
  | stage cache phase result =>
    simp only [CacheInvariant, phase] at invariant
    obtain ⟨decoding, place, planned⟩ := stage_invariant invariant.1 invariant.2 result
    exact ⟨decoding, place, planned, fun _ _ _ _ _ _ _ _ impossible =>
      absurd impossible (Nat.not_lt_zero _)⟩
  | treeLayer written entries cache phase faithful result =>
    simp only [CacheInvariant, phase] at invariant
    obtain ⟨decoding, place, planned, staged⟩ := invariant
    exact treeLayer_invariant decoding place planned staged faithful result
  | commit accepted cache counts phase decided result =>
    simp only [CacheInvariant, phase] at invariant
    obtain ⟨decoding, place, planned, staged⟩ := invariant
    exact commit_invariant decoding decided place planned staged trees result

/-- Every active request of a configuration has its own row: in place between
rounds, and holding in every layer, in order, the entries of the request's prompt
and of all its output tokens but the last. -/
def Config.Committed (kv : Entries E) (prompts : List (List Nat)) (config : Config E) : Prop :=
  ∀ (position request : Nat), config.active[position]? = some request →
    ∃ row state, config.rows[position]? = some row ∧ config.states[request]? = some state ∧
      (config.phase = .ready → row = position) ∧ prompts[request]? = some state.promptIds ∧
      state.targetPrefixLen = state.promptIds.length + state.outputTokens.length - 1 ∧
      ∀ index layer, config.cache.layers[index]? = some layer →
        ∀ column < state.targetPrefixLen, layer.entry row column =
          some (kv request index
            ((state.promptIds ++ state.outputTokens.dropLast).take (column + 1)))

omit [Zero E] in
/-- The invariant of a decoding configuration at one of its requests. -/
theorem Decoding.committed {config : Config E} (decoding : Decoding kv prompts config)
    (place : config.phase = .ready → config.rows = List.range config.active.length) :
    config.Committed kv prompts := by
  intro position request listed
  have inside := (List.getElem?_eq_some_iff.mp listed).1
  have atRow := List.getElem?_eq_getElem (decoding.paired ▸ inside : position < config.rows.length)
  obtain ⟨state, atState, serving⟩ := decoding.serving request (List.mem_of_getElem? listed)
  refine ⟨_, state, atRow, atState, ?_, serving.owner, ?_,
    decoding.hold position request _ state listed atRow atState⟩
  · intro ready
    have own : config.rows[position]? = some position := by
      rw [place ready, List.getElem?_range inside]
    exact Option.some.inj (atRow.symm.trans own)
  · obtain ⟨current, -, last, -⟩ := serving.drafted
    have some_output : 0 < state.outputTokens.length := by
      refine List.length_pos_iff.mpr (fun none => ?_)
      simp [none] at last
    rw [serving.width, RequestState.committed, List.length_append, List.length_dropLast]
    omega

/-- **The target cache keeps every committed entry.** In every configuration a run
of the loop reaches, between rounds and inside them, each active request's row
holds exactly the entries of its own prompt and output, whatever has been staged,
committed, cleared, grown and gathered on the way. -/
theorem cachedLoop_committed (settings : Settings) (draft : Draft) (kv : Entries E)
    (prompts : List (List Nat)) (trees : draft.WellFormed) (config : Config E)
    (reached : (cachedLoop (H := H) settings draft kv prompts).Reachable config) :
    config.Committed kv prompts := by
  have invariant := reached.invariant (CacheInvariant settings kv prompts)
    (by
      rintro _ ⟨sharedStorage, numLayers, maxTreeWidth, rfl⟩
      exact initialConfig_invariant sharedStorage numLayers maxTreeWidth)
    (cacheStep_invariant trees)
  cases phase : config.phase with
  | prefilling written =>
    simp only [CacheInvariant, phase] at invariant
    intro position request listed
    simp [invariant.idle] at listed
  | ready =>
    simp only [CacheInvariant, phase] at invariant
    exact invariant.1.committed (fun _ => invariant.2.rows)
  | staged written =>
    simp only [CacheInvariant, phase] at invariant
    exact invariant.1.committed (fun _ => invariant.2.1.rows)
  | committed =>
    simp only [CacheInvariant, phase] at invariant
    exact invariant.1.committed (fun ready => by simp [phase] at ready)

/-- Entries of a target that writes what a layer must hold of the staged trees. -/
def honestTree (kv : Entries E) (config : Config E) (index : Nat) : Storage E := fun row node =>
  (config.active[row]?.bind (fun request => config.states[request]?.bind (fun state =>
    state.tree.bind (fun tree => (tree.rootPath node).map (fun path =>
      kv request index (state.committed ++ tree.tokensAt path)))))).getD 0

theorem honestTree_writes (kv : Entries E) (config : Config E) (index : Nat) :
    WritesTree kv config index (honestTree kv config index) := by
  intro row request state tree node path atActive atState drafted rooted
  simp [honestTree, atActive, atState, drafted, rooted]

section stopping

/-- Two prompts of different lengths. -/
def stoppingPrompts : List (List Nat) := [[3, 1], [4]]

/-- Eight tokens at most, and token nine ends a request. -/
def stoppingSettings : Settings := ⟨8, [9], 0, 11, 1⟩

/-- The stop token is guessed for the first request only. -/
def stoppingDraft : Draft := fun _ request state =>
  Tree.pair (state.currentToken.getD 0) (if request = 0 then 9 else 5)

/-- A target that stops the first request in the first round. -/
def stoppingTarget : Target Unit :=
  ⟨fun _ _ => 2, fun _ _ => ⟨fun row _ => if row = 0 then 9 else 7, fun _ _ => [], fun _ _ _ => ()⟩⟩

/-- Entries that tell requests, layers and texts apart. -/
def stoppingEntries : Entries Nat := fun request index tokens => request + 2 * index + tokens.sum

/-- The entries of the prompts. -/
def stoppingWrites (index : Nat) : Storage Nat := fun request column =>
  stoppingEntries request index ((stoppingPrompts.getD request []).take (column + 1))

/-- A round that stops the first of two requests, so that the second one's row
moves. -/
theorem cachedLoop_committed_round :
    ∃ config : Config Nat, config.phase = .ready ∧ config.round = 1 ∧ config.active = [1] ∧
      config.Committed stoppingEntries stoppingPrompts := by
  have trees : stoppingDraft.WellFormed := by
    intro round request state current atCurrent
    simp only [stoppingDraft, atCurrent, Option.getD_some]
    exact Tree.pair_wellFormed current _
  obtain ⟨config, reached, ready, round, active⟩ : ∃ config : Config Nat,
      (cachedLoop (H := Unit) stoppingSettings stoppingDraft stoppingEntries
        stoppingPrompts).Reachable config ∧
      config.phase = .ready ∧ config.round = 1 ∧ config.active = [1] := by
    refine ⟨_, .step _ _ (.step _ _ (.step _ _ (.step _ _ (.step _ _ (.step _ _ (.step _ _
      (.start _ ⟨true, 1, 2, rfl⟩)
      (.prefillLayer _ 0 (stoppingWrites 0) _ rfl ?_ rfl))
      (.start _ stoppingTarget rfl))
      (.compact _ rfl (by decide)))
      (.stage _ _ rfl rfl))
      (.treeLayer _ 0 (honestTree stoppingEntries _ 0) _ rfl
        (fun _ _ => honestTree_writes _ _ _) rfl))
      (.commit _ _ _ _ rfl (.greedy (stoppingTarget.verify 0 []) _ rfl) rfl))
      (.compact _ rfl (by decide)), rfl, rfl, rfl⟩
    intro request prompt column atPrompt _
    simp [stoppingWrites, List.getD_eq_getElem?_getD, atPrompt]
  exact ⟨config, ready, round, active,
    cachedLoop_committed _ _ _ _ trees config reached⟩

end stopping

end SpecBlock.Batch
