import SpecBlock.Draft.InitialForward

/-!
# The first drafts are those of each request alone

After every chunk a row holds the slots of its positions so far, and the requests that are done
have the outputs of their last position: those the network computes from all slots up to the
last position's. The lengths are no multiple of the chunk size, or are, or just miss one; the
last position is in the chunk that its length gives, in any case.

A request that is prefilled alone, in chunks of its own, holds the same slots and has the same
outputs.
-/

namespace SpecBlock.Draft

open Serving Batch

variable {S H O : Type}

/-- The causal mask over slots lets a query see the slots up to its own. -/
theorem crossPositionCausalMask_eq (K query index : Nat) :
    crossPositionCausalMask K query index = decide (index ≤ query) := by
  have whole := Nat.div_add_mod index K
  have wholeQuery := Nat.div_add_mod query K
  rcases Nat.eq_zero_or_pos K with rfl | positive
  · simp [crossPositionCausalMask]
  have small := Nat.mod_lt index positive
  have smallQuery := Nat.mod_lt query positive
  rcases Nat.lt_trichotomy (index / K) (query / K) with earlier | same | later
  · have next : K * (index / K + 1) ≤ K * (query / K) := Nat.mul_le_mul_left K earlier
    rw [Nat.mul_succ] at next
    have before : index ≤ query := by omega
    simp [crossPositionCausalMask, earlier, before]
  · have order : index % K ≤ query % K ↔ index ≤ query := by
      rw [same] at whole
      omega
    simp [crossPositionCausalMask, same, order]
  · have next : K * (query / K + 1) ≤ K * (index / K) := Nat.mul_le_mul_left K later
    rw [Nat.mul_succ] at next
    have behind : ¬ index ≤ query := by omega
    have notEarlier : ¬ index / K < query / K := by omega
    have notSame : ¬ index / K = query / K := by omega
    simp [crossPositionCausalMask, notEarlier, notSame, behind]

/-- A query sees the live cells and those behind them up to its own. -/
theorem treeMask_eq (K crossCount query index : Nat) :
    (decide (index < crossCount) || crossPositionCausalMask K query (index - crossCount)) =
      decide (index < crossCount + query + 1) := by
  rw [crossPositionCausalMask_eq, Bool.eq_iff_iff, Bool.or_eq_true, decide_eq_true_iff,
    decide_eq_true_iff, decide_eq_true_iff]
  omega

/-- A valid query of a row sees the same: its own slots are valid ones. -/
theorem raggedTreeMask_eq {validSlots query : Nat} (K crossCount index : Nat)
    (valid : query < validSlots) :
    raggedTreeMask K crossCount validSlots query index = decide (index < crossCount + query + 1) := by
  unfold raggedTreeMask
  rw [if_pos valid, treeMask_eq, Bool.eq_iff_iff, Bool.and_eq_true, decide_eq_true_iff,
    decide_eq_true_iff]
  omega

theorem attended_cells {α : Type} {memory : LivePrefix α} {values : List α} {mask : Nat → Bool}
    {total count : Nat} (holds : memory.Holds values) (within : count ≤ values.length)
    (reached : count ≤ total) (first : ∀ index, mask index = decide (index < count)) :
    attended ((List.range total).map memory.cells) mask = (values.take count).map some := by
  rw [attended_first _ _ count (by simpa using reached) (fun index _ => first index)]
  apply List.ext_getElem?
  intro cell
  rw [List.getElem?_take, List.getElem?_map, List.getElem?_map, List.getElem?_take]
  by_cases inside : cell < count
  · rw [if_pos inside, if_pos inside, List.getElem?_range (by omega), Option.map_some,
      holds.stored cell (by omega), List.getElem?_eq_getElem (by omega), Option.map_some]
  · rw [if_neg inside, if_neg inside, Option.map_none]

/-- The condition at a valid position, by the kernel or by the gather. -/
theorem projectInitialRaggedCondition_valid {network : DraftNetwork S H O}
    (projects : ∀ kernel, network.kernel = some kernel → kernel.Projects network.project)
    (hiddenSources : Nat → Nat → S) {sourceRows sourceLengths starts lengths : List Nat}
    (maxPositions : Nat) {row column : Nat} (active : row < starts.length)
    (valid : column < lengths.getD row 0) :
    projectInitialRaggedCondition network hiddenSources sourceRows sourceLengths starts lengths
        maxPositions row column =
      network.project (hiddenSources (sourceRows.getD row 0)
        (min (starts.getD row 0 + column) (sourceLengths.getD row 0 - 1))) := by
  have readRow : (sourceRows.take starts.length).getD row 0 = sourceRows.getD row 0 := by
    rw [List.getD_eq_getElem?_getD, List.getElem?_take_of_lt active, ← List.getD_eq_getElem?_getD]
  have readLength : (sourceLengths.take starts.length).getD row 0 = sourceLengths.getD row 0 := by
    rw [List.getD_eq_getElem?_getD, List.getElem?_take_of_lt active, ← List.getD_eq_getElem?_getD]
  unfold projectInitialRaggedCondition
  cases given : network.kernel with
  | some kernel =>
    dsimp only
    rw [projects kernel given _ _ _ _ _ _ row column active valid, readRow, readLength]
  | none =>
    dsimp only
    rw [readRow, readLength]

/-- What is drafted at the last position of a request. -/
def draftedOutputs [Inhabited H] (network : DraftNetwork S H O) (request : InitialRequest H) : List O :=
  (List.range network.K).map (fun slot => network.compute (List.replicate network.numLayers
    (((chainSlots network.K 0 request.hiddenRow request.tokenRow).take
      (request.promptIds.length * network.K + slot + 1)).map some)))

theorem assertRaggedKvMetadata_ok (K : Nat) (lengthsHost validLengths : List Nat) :
    assertRaggedKvMetadata (lengthsHost.take (activeCount validLengths))
      ((validLengths.take (activeCount validLengths)).map (· * K)) (maximum validLengths * K)
      (maxTotalSlots K lengthsHost validLengths) = .ok () := by
  unfold assertRaggedKvMetadata
  rw [if_pos]
  rw [List.all_eq_true]
  rintro ⟨count, slots⟩ member
  rw [List.zip_map_right, List.mem_map] at member
  obtain ⟨⟨length, valid⟩, zipped, same⟩ := member
  obtain ⟨rfl, rfl⟩ : length = count ∧ valid * K = slots := by simpa using same
  have listed : valid ∈ validLengths := List.mem_of_mem_take (List.of_mem_zip zipped).2
  have within : valid * K ≤ maximum validLengths * K :=
    Nat.mul_le_mul_right K (le_maximum _ _ listed)
  have room : length + valid * K ≤ maxTotalSlots K lengthsHost validLengths := by
    apply le_maximum
    rw [← List.map_uncurry_zip_eq_zipWith]
    exact List.mem_map.mpr ⟨(length, valid), zipped, rfl⟩
  exact decide_eq_true ⟨within, room⟩

/-- The storage of every layer is wide enough after a checked forward. -/
theorem checkAttention_ok {K : Nat} {cache following : DraftBatchCache (CrossSlot H)}
    {validLengths : List Nat} (slots : 0 < K) (checked : RaggedChecked K cache validLengths)
    (sized : validLengths.length = cache.activeBatchSize) (consistent : following.Consistent)
    (declared : following.layers.map DraftLayer.maxCacheLen = cache.layers.map DraftLayer.maxCacheLen)
    (stored : ∀ layer ∈ following.layers, layer.storage ≠ none) :
    checkAttention (maxTotalSlots K cache.lengthsHost validLengths) following.layers = .ok () := by
  unfold checkAttention
  rw [if_neg]
  rintro (nothing | narrow)
  · have active : 0 < activeCount validLengths := by
      apply List.countP_pos_iff.mpr
      have largest := (maximum_spec validLengths checked.nonempty).1
      exact ⟨_, largest, decide_eq_true (Nat.pos_of_ne_zero checked.positive)⟩
    have inside : 0 < validLengths.length := Nat.lt_of_lt_of_le active (List.countP_le_length)
    have leads : validLengths[0] ≠ 0 := by
      apply checked.leading
      rw [List.mem_take_iff_getElem]
      exact ⟨0, by omega, rfl⟩
    have counted : 0 < cache.lengthsHost.length := by
      rw [sized, DraftBatchCache.activeBatchSize] at inside
      exact inside
    have room : (List.replicate cache.lengthsHost[0] ()).length + validLengths[0] * K ≤
        maxTotalSlots K cache.lengthsHost validLengths :=
      RaggedChecked.room (List.getElem?_eq_getElem inside) active (by simp)
    rw [nothing] at room
    have some := Nat.mul_pos (Nat.pos_of_ne_zero leads) slots
    omega
  · obtain ⟨layer, member, narrow⟩ := List.any_eq_true.mp narrow
    have wide := (consistent.allocated layer member).declared (stored layer member)
    have listed : layer.maxCacheLen ∈ cache.layers.map DraftLayer.maxCacheLen :=
      declared ▸ List.mem_map_of_mem member
    obtain ⟨before, inBefore, same⟩ := List.mem_map.mp listed
    have capacity := checked.capacity.trans (cacheCapacity_le inBefore)
    have narrow := of_decide_eq_true narrow
    omega

section drafting

variable [Inhabited H] {network : DraftNetwork S H O} {hiddenSources : Nat → Nat → S}
  {entries : List DraftEntry}

/-- The hidden row of a request at a position fed, the last one repeated. -/
theorem DraftEntry.request_hidden (project : S → H) (entry : DraftEntry) (position : Nat) :
    (entry.request project hiddenSources).hidden.getD
        (min position ((entry.request project hiddenSources).hidden.length - 1)) default =
      project (hiddenSources entry.sourceIdx (min position (entry.promptLen - 1))) := by
  have size : 0 < entry.promptLen := List.length_pos_of_ne_nil entry.nonempty
  have inside : min position (entry.promptLen - 1) < entry.promptLen := by omega
  simp [request, List.getD_eq_getElem?_getD, inside]

variable (network hiddenSources) in
/-- The requests alone. -/
def requestsAlone (entries : List DraftEntry) : List (InitialRequest H) :=
  entries.map (DraftEntry.request network.project hiddenSources)

omit [Inhabited H] in
theorem requestsAlone_totals :
    (requestsAlone network hiddenSources entries).map InitialRequest.total =
      entries.map DraftEntry.total := by
  simp [requestsAlone, Function.comp_def, InitialRequest.total, DraftEntry.total, DraftEntry.request,
    DraftEntry.promptLen]

variable {capacity chunk : Nat} {cache following : DraftBatchCache (CrossSlot H)}

/-- The condition at a valid position is the request's own hidden row there. -/
theorem condition_alone {start : Nat}
    (projects : ∀ kernel, network.kernel = some kernel → kernel.Projects network.project)
    (checked : RaggedChecked network.K cache ((entries.map DraftEntry.total).map (chunkValid start)))
    (row column : Nat)
    (valid : column < ((entries.map DraftEntry.total).map (chunkValid start)).getD row 0) :
    let validLengths := (entries.map DraftEntry.total).map (chunkValid start)
    let starts := entries.map (fun _ => start)
    let prompts := (requestsAlone network hiddenSources entries).map InitialRequest.hidden
    projectInitialRaggedCondition network hiddenSources (entries.map DraftEntry.sourceIdx)
        (entries.map DraftEntry.promptLen) (starts.take (activeCount validLengths))
        (validLengths.take (activeCount validLengths)) (maximum validLengths) row column =
      (prompts.getD row []).getD
        (min (starts.getD row 0 + column) ((prompts.getD row []).length - 1)) default := by
  intro validLengths starts prompts
  have active : row < activeCount validLengths := by
    by_contra behind
    rw [checked.inactive (Nat.le_of_not_lt behind)] at valid
    exact Nat.not_lt_zero _ valid
  have counted : activeCount validLengths ≤ entries.length := by
    have few := activeCount_le validLengths
    simpa [validLengths] using few
  have listed : entries[row]? = some entries[row] := List.getElem?_eq_getElem (by omega)
  have readStart : (starts.take (activeCount validLengths)).getD row 0 = starts.getD row 0 := by
    rw [List.getD_eq_getElem?_getD, List.getElem?_take_of_lt active, ← List.getD_eq_getElem?_getD]
  have readValid : (validLengths.take (activeCount validLengths)).getD row 0 =
      validLengths.getD row 0 := by
    rw [List.getD_eq_getElem?_getD, List.getElem?_take_of_lt active, ← List.getD_eq_getElem?_getD]
  have prompt : prompts.getD row [] =
      (entries[row].request network.project hiddenSources).hidden := by
    simp [prompts, requestsAlone, List.getD_eq_getElem?_getD, listed]
  rw [projectInitialRaggedCondition_valid projects hiddenSources _
    (by simp [starts]; omega) (by rw [readValid]; exact valid), readStart, prompt,
    DraftEntry.request_hidden]
  simp [List.getD_eq_getElem?_getD, listed]

/-- The forward over the padded sources writes what one over the prompts does. -/
theorem raggedForward_alone {start : Nat}
    (projects : ∀ kernel, network.kernel = some kernel → kernel.Projects network.project)
    (batch : cache.activeBatchSize = entries.length)
    (checked : RaggedChecked network.K cache ((entries.map DraftEntry.total).map (chunkValid start))) :
    let validLengths := (entries.map DraftEntry.total).map (chunkValid start)
    let starts := entries.map (fun _ => start)
    let tokenRows := entries.map (fun entry => (entry.tokenRow.drop start).take 64)
    let alone := requestsAlone network hiddenSources entries
    raggedForward
        { unmatched := "initial ragged draft inputs must match active cache rows"
          empty := "initial ragged draft forward requires valid positions"
          scattered := "zero-length initial draft rows must form a contiguous suffix" }
        network.K cache
        (decide ((entries.map DraftEntry.sourceIdx).length = tokenRows.length ∧
          (entries.map DraftEntry.promptLen).length = tokenRows.length ∧
          starts.length = tokenRows.length ∧ validLengths.length = tokenRows.length ∧
          cache.activeBatchSize = tokenRows.length))
        (projectInitialRaggedCondition network hiddenSources (entries.map DraftEntry.sourceIdx)
          (entries.map DraftEntry.promptLen) (starts.take (activeCount validLengths))
          (validLengths.take (activeCount validLengths)) (maximum validLengths))
        (paddedRows 0 tokenRows validLengths) starts validLengths =
      runInitialRaggedDraftForward network.K cache (alone.map InitialRequest.hidden)
        (alone.map (fun request => (request.tokenRow.drop start).take 64))
        (alone.map (fun _ => start)) ((alone.map InitialRequest.total).map (chunkValid start)) := by
  intro validLengths starts tokenRows alone
  have tokens : alone.map (fun request => (request.tokenRow.drop start).take 64) = tokenRows := by
    simp [alone, requestsAlone, tokenRows, Function.comp_def, InitialRequest.tokenRow,
      DraftEntry.tokenRow, DraftEntry.request]
  have begins : alone.map (fun _ => start) = starts := by
    simp [alone, requestsAlone, starts, Function.comp_def]
  have matching : decide ((entries.map DraftEntry.sourceIdx).length = tokenRows.length ∧
      (entries.map DraftEntry.promptLen).length = tokenRows.length ∧
      starts.length = tokenRows.length ∧ validLengths.length = tokenRows.length ∧
      cache.activeBatchSize = tokenRows.length) = true := by
    simp [tokenRows, starts, validLengths, batch]
  have matchingAlone : decide ((alone.map InitialRequest.hidden).length = tokenRows.length ∧
      starts.length = tokenRows.length ∧ validLengths.length = tokenRows.length ∧
      cache.activeBatchSize = tokenRows.length) = true := by
    simp [tokenRows, starts, validLengths, batch, alone, requestsAlone]
  unfold runInitialRaggedDraftForward
  rw [tokens, begins, requestsAlone_totals, matching, matchingAlone]
  exact raggedForward_congr (condition_alone projects checked)

/-- The loop before a chunk: the cache holds the slots so far, and the requests that are done
have their outputs. -/
structure DraftingHolds (network : DraftNetwork S H O) (hiddenSources : Nat → Nat → S)
    (entries : List DraftEntry) (capacity chunk : Nat) (state : InitialDrafting H O) : Prop where
  holds : ChunkHolds network.K network.numLayers capacity
    (requestsAlone network hiddenSources entries) (chunk * 64) state.cache
  sized : state.finalOutputs.length = entries.length
  finals : ∀ (row : Nat) (entry : DraftEntry), entries[row]? = some entry → state.finalOutputs[row]? =
    some (if entry.total ≤ chunk * 64 then
      some (draftedOutputs network (entry.request network.project hiddenSources)) else none)

omit [Inhabited H] in
theorem copyFinishing_getElem? (finishing : List Nat) (outputs : List (List O))
    (finalOutputs : List (Option (List O))) {row : Nat} (inside : row < finalOutputs.length) :
    (copyFinishing finishing outputs finalOutputs)[row]? =
      if row ∈ finishing then some outputs[row]? else finalOutputs[row]? := by
  induction finishing generalizing finalOutputs with
  | nil => simp [copyFinishing]
  | cons first rest ih =>
    have copied := ih (finalOutputs.set first outputs[first]?) (by simpa using inside)
    have unfolded : copyFinishing (first :: rest) outputs finalOutputs =
      copyFinishing rest outputs (finalOutputs.set first outputs[first]?) := rfl
    rw [unfolded, copied]
    by_cases later : row ∈ rest
    · simp [later]
    · by_cases here : first = row
      · subst here
        simp [later, inside]
      · have other : ¬ row = first := fun same => here same.symm
        simp [later, here, other]

omit [Inhabited H] in
theorem copyFinishing_length (finishing : List Nat) (outputs : List (List O))
    (finalOutputs : List (Option (List O))) :
    (copyFinishing finishing outputs finalOutputs).length = finalOutputs.length := by
  induction finishing generalizing finalOutputs with
  | nil => rfl
  | cons first rest ih =>
    have copied := ih (finalOutputs.set first outputs[first]?)
    rw [List.length_set] at copied
    exact copied

/-- The outputs of a row whose last position is in the chunk. -/
theorem lastPositionOutputs_finishing {start row active maxTotal : Nat}
    {lengthsHost : List Nat} {layers : List (DraftLayer (CrossSlot H))}
    (request : InitialRequest H) (late : start < request.total) (ending : request.total ≤ start + 64)
    (layered : layers.length = network.numLayers)
    (counted : lengthsHost[row]? = some (start * network.K)) (computed : row < active)
    (room : request.total * network.K ≤ maxTotal)
    (rows : ∀ layer ∈ layers, layer.RowHolds row
      (chainSlots network.K 0 request.hiddenRow request.tokenRow)) :
    lastPositionOutputs network
        (List.zip layers (List.replicate network.numLayers (lengthsHost.take active))) maxTotal
        (chunkValid start request.total) row = draftedOutputs network request := by
  obtain ⟨hiddenLength, tokenLength⟩ := request.row_length
  have size := chainSlots_length network.K 0 request.hiddenRow request.tokenRow (by omega)
  have valid : chunkValid start request.total = request.promptIds.length - start + 1 := by
    unfold chunkValid InitialRequest.total at *
    omega
  have reach : start ≤ request.promptIds.length := by
    unfold InitialRequest.total at late
    omega
  unfold lastPositionOutputs draftedOutputs
  dsimp only
  apply List.map_congr_left
  intro slot member
  have small : slot < network.K := List.mem_range.mp member
  congr 1
  rw [List.eq_replicate_iff]
  refine ⟨by simp [layered], fun seen listed => ?_⟩
  obtain ⟨⟨layer, lengths⟩, zipped, rfl⟩ := List.mem_map.mp listed
  have inLayers := (List.of_mem_zip zipped).1
  have sameLengths := List.eq_of_mem_replicate (List.of_mem_zip zipped).2
  subst sameLengths
  have cross : (lengthsHost.take active).getD row 0 = start * network.K := by
    rw [List.getD_eq_getElem?_getD, List.getElem?_take_of_lt computed, counted, Option.getD_some]
  have own : (chunkValid start request.total - 1) * network.K =
      (request.promptIds.length - start) * network.K := by
    rw [valid, Nat.add_sub_cancel]
  have place : start * network.K + (request.promptIds.length - start) * network.K =
      request.promptIds.length * network.K := by
    rw [← Nat.add_mul, Nat.add_sub_cancel' reach]
  have total : request.total * network.K = request.promptIds.length * network.K + network.K := by
    rw [InitialRequest.total, Nat.succ_mul]
  have inside : (request.promptIds.length - start) * network.K + slot <
      chunkValid start request.total * network.K := by
    rw [valid, Nat.succ_mul]
    omega
  have reached : request.promptIds.length * network.K + slot + 1 ≤ request.total * network.K := by omega
  have within : request.promptIds.length * network.K + slot + 1 ≤
      (chainSlots network.K 0 request.hiddenRow request.tokenRow).length := by
    rw [size, hiddenLength]
    exact reached
  have seen := attended_cells (rows layer inLayers).holds within (reached.trans room)
    (fun index => rfl)
  rw [← seen]
  unfold raggedTreeAttention
  dsimp only
  congr 1
  funext index
  rw [cross, own, raggedTreeMask_eq _ _ _ inside, ← Nat.add_assoc, place]

/-- All slots of a request are there once its last position was fed. -/
theorem InitialRequest.slotsBefore_all {K column : Nat} (request : InitialRequest H)
    (fed : request.total ≤ column) :
    request.slotsBefore K column = chainSlots K 0 request.hiddenRow request.tokenRow := by
  obtain ⟨hiddenLength, tokenLength⟩ := request.row_length
  unfold slotsBefore
  rw [List.take_of_length_le (by omega), List.take_of_length_le (by omega)]

/-- The forward of a chunk runs, moves the cache on, and computes the outputs of the requests
whose last position is in the chunk. -/
theorem chunkOutputs_holds (slots : 0 < network.K)
    (layered : 0 < network.numLayers)
    (projects : ∀ kernel, network.kernel = some kernel → kernel.Projects network.project)
    (ordered : Ordered (requestsAlone network hiddenSources entries))
    (enough : ∀ request ∈ requestsAlone network hiddenSources entries,
      request.total * network.K ≤ capacity)
    (left : ∃ request ∈ requestsAlone network hiddenSources entries, chunk * 64 < request.total)
    (holds : ChunkHolds network.K network.numLayers capacity
      (requestsAlone network hiddenSources entries) (chunk * 64) cache) :
    ∃ following outputs, runInitialRaggedDraftForwardOutputs network cache hiddenSources
        (entries.map DraftEntry.sourceIdx) (entries.map DraftEntry.promptLen)
        (entries.map (fun entry => (entry.tokenRow.drop (chunk * 64)).take 64))
        (entries.map (fun _ => chunk * 64))
        ((entries.map DraftEntry.total).map (chunkValid (chunk * 64))) = .ok (following, outputs) ∧
      ChunkHolds network.K network.numLayers capacity
        (requestsAlone network hiddenSources entries) ((chunk + 1) * 64) following ∧
      ∀ (row : Nat) (entry : DraftEntry), entries[row]? = some entry → chunk * 64 < entry.total →
        entry.total ≤ chunk * 64 + 64 → outputs[row]? =
          some (draftedOutputs network (entry.request network.project hiddenSources)) := by
  obtain ⟨following, ran, drafted⟩ := chunkForward_holds layered ordered enough left holds
  have checked := chunk_checked layered ordered enough left holds
  have batch : cache.activeBatchSize = entries.length := by
    rw [DraftBatchCache.activeBatchSize, holds.sized, requestsAlone, List.length_map]
  rw [requestsAlone_totals] at checked
  rw [← raggedForward_alone projects batch checked] at ran
  have viewed := raggedForward_views holds.consistent ran
  have forward := raggedForward_ok holds.consistent ran
  have layers : cache.layers.length = network.numLayers := by
    simpa using congrArg List.length holds.declared
  have lengths : (cache.layers.map (fun layer => (layer, cache.lengthsHost.take (activeCount
      ((entries.map DraftEntry.total).map (chunkValid (chunk * 64))))))).map Prod.snd =
      List.replicate network.numLayers (cache.lengthsHost.take (activeCount
        ((entries.map DraftEntry.total).map (chunkValid (chunk * 64))))) := by
    rw [List.map_map, ← layers]
    exact List.map_const'
  have first : (List.replicate network.numLayers (cache.lengthsHost.take (activeCount
      ((entries.map DraftEntry.total).map (chunkValid (chunk * 64)))))).headD [] =
      cache.lengthsHost.take (activeCount
        ((entries.map DraftEntry.total).map (chunkValid (chunk * 64)))) := by
    rw [← Nat.succ_pred_eq_of_pos layered, List.replicate_succ]
    rfl
  have asserted := assertRaggedKvMetadata_ok network.K cache.lengthsHost
    ((entries.map DraftEntry.total).map (chunkValid (chunk * 64)))
  have wide := checkAttention_ok slots checked (by simp [batch]) forward.consistent forward.declared
    forward.stored
  unfold runInitialRaggedDraftForwardOutputs
  dsimp only
  rw [ran]
  simp only [bind, Except.bind, viewed, lengths, first, asserted, wide, pure, Except.pure]
  refine ⟨_, _, rfl, drafted, fun row entry listed late ending => ?_⟩
  let request := entry.request network.project hiddenSources
  have listedAlone : (requestsAlone network hiddenSources entries)[row]? = some request := by
    rw [requestsAlone, List.getElem?_map, listed, Option.map_some]
  have read : ((entries.map DraftEntry.total).map (chunkValid (chunk * 64))).getD row 0 =
      chunkValid (chunk * 64) request.total := by
    rw [List.getD_eq_getElem?_getD, List.getElem?_map, List.getElem?_map, listed]
    rfl
  have total : request.total = entry.total := rfl
  have active : row < activeCount ((entries.map DraftEntry.total).map (chunkValid (chunk * 64))) := by
    by_contra behind
    have none := checked.inactive (Nat.le_of_not_lt behind)
    rw [read] at none
    unfold chunkValid at none
    omega
  have filled : (request.slotsBefore network.K (chunk * 64)).length = chunk * 64 * network.K := by
    rw [request.slotsBefore_length, Nat.min_eq_left (by omega)]
  have counted := (holds.rows row request listedAlone).counted
  have room : (request.slotsBefore network.K (chunk * 64)).length +
      chunkValid (chunk * 64) request.total * network.K ≤
        maxTotalSlots network.K cache.lengthsHost
          ((entries.map DraftEntry.total).map (chunkValid (chunk * 64))) := by
    refine RaggedChecked.room ?_ active counted
    rw [List.getElem?_map, List.getElem?_map, listed]
    rfl
  have fed : chunk * 64 + chunkValid (chunk * 64) request.total = request.total := by
    unfold chunkValid
    omega
  rw [filled, ← Nat.add_mul, fed] at room
  rw [filled] at counted
  rw [List.getElem?_map, List.getElem?_range active, Option.map_some, read]
  congr 1
  refine lastPositionOutputs_finishing request (by omega) (by omega) ?_ counted active room ?_
  · rw [← layers]
    simpa using congrArg List.length forward.declared
  · intro layer member
    have rows := (drafted.rows row request listedAlone).layers layer member
    rwa [request.slotsBefore_all (by omega)] at rows

/-- One chunk of the loop runs and keeps what the loop has before a chunk. -/
theorem initialChunk_holds {state : InitialDrafting H O} (slots : 0 < network.K)
    (layered : 0 < network.numLayers)
    (projects : ∀ kernel, network.kernel = some kernel → kernel.Projects network.project)
    (ordered : Ordered (requestsAlone network hiddenSources entries))
    (enough : ∀ request ∈ requestsAlone network hiddenSources entries,
      request.total * network.K ≤ capacity)
    (left : ∃ request ∈ requestsAlone network hiddenSources entries, chunk * 64 < request.total)
    (holds : DraftingHolds network hiddenSources entries capacity chunk state) :
    ∃ following, initialChunk network hiddenSources entries state chunk = .ok following ∧
      DraftingHolds network hiddenSources entries capacity (chunk + 1) following := by
  obtain ⟨cache, outputs, ran, drafted, computed⟩ := chunkOutputs_holds slots layered projects ordered
    enough left holds.holds
  have checked := checkFinishing_ok (chunk_checked layered ordered enough left holds.holds)
  rw [requestsAlone_totals] at checked
  refine ⟨⟨cache, copyFinishing (finishingRows (chunk * 64) (entries.map DraftEntry.total)) outputs
    state.finalOutputs⟩, ?_, drafted, ?_, ?_⟩
  · unfold initialChunk
    simp only [ran, checked, bind, Except.bind, pure, Except.pure]
  · rw [copyFinishing_length, holds.sized]
  · intro row entry listed
    have inside := (List.getElem?_eq_some_iff.mp listed).1
    have finishing : row ∈ finishingRows (chunk * 64) (entries.map DraftEntry.total) ↔
        chunk * 64 < entry.total ∧ entry.total ≤ chunk * 64 + 64 := by
      have read : (entries.map DraftEntry.total).getD row 0 = entry.total := by
        rw [List.getD_eq_getElem?_getD, List.getElem?_map, listed]
        rfl
      rw [finishingRows, List.mem_filter, List.mem_range, decide_eq_true_iff, read, List.length_map]
      exact and_iff_right inside
    rw [copyFinishing_getElem? _ _ _ (by rw [holds.sized]; exact inside),
      holds.finals row entry listed, Nat.succ_mul]
    by_cases done : entry.total ≤ chunk * 64
    · have earlier := mt finishing.mp (fun here => Nat.not_lt.mpr done here.1)
      rw [if_neg earlier, if_pos done, if_pos (by omega)]
    · by_cases ending : entry.total ≤ chunk * 64 + 64
      · have here := finishing.mpr ⟨by omega, ending⟩
        rw [if_pos here, if_pos ending, computed row entry listed (by omega) ending]
      · have later := mt finishing.mp (fun here => ending here.2)
        rw [if_neg later, if_neg done, if_neg ending]

theorem initialChunks_hold {state : InitialDrafting H O} (slots : 0 < network.K)
    (layered : 0 < network.numLayers)
    (projects : ∀ kernel, network.kernel = some kernel → kernel.Projects network.project)
    (ordered : Ordered (requestsAlone network hiddenSources entries))
    (enough : ∀ request ∈ requestsAlone network hiddenSources entries,
      request.total * network.K ≤ capacity)
    (holds : DraftingHolds network hiddenSources entries capacity 0 state) (chunks : Nat)
    (left : ∀ chunk < chunks, ∃ request ∈ requestsAlone network hiddenSources entries,
      chunk * 64 < request.total) :
    ∃ final, (List.range chunks).foldlM (initialChunk network hiddenSources entries) state = .ok final ∧
      DraftingHolds network hiddenSources entries capacity chunks final := by
  induction chunks with
  | zero => exact ⟨state, rfl, holds⟩
  | succ chunks ih =>
    obtain ⟨before, ran, reached⟩ :=
      ih (fun chunk earlier => left chunk (Nat.lt_succ_of_lt earlier))
    obtain ⟨final, stepped, next⟩ := initialChunk_holds slots layered projects ordered enough
      (left chunks (Nat.lt_succ_self chunks)) reached
    refine ⟨final, ?_, next⟩
    rw [List.range_succ, List.foldlM_append, ran]
    simp only [bind, Except.bind, List.foldlM_cons, List.foldlM_nil, stepped, pure, Except.pure]

/-- A request prefilled alone drafts the same outputs, whatever its chunks are. -/
theorem prefillOutputs_eq (request : InitialRequest H) {chunkSize : Nat} (positive : 0 < chunkSize) :
    prefillOutputs network request.hidden (request.promptIds.drop 1 ++ [request.currentToken])
        (request.hidden.getLastD default) request.currentToken chunkSize =
      draftedOutputs network request := by
  have size := List.length_pos_of_ne_nil request.nonempty
  have shifted : (request.promptIds.drop 1 ++ [request.currentToken]).length =
      request.hidden.length := by
    rw [List.length_append, List.length_drop, List.length_singleton, request.paired]
    omega
  obtain ⟨chunks, lastStart, inside⟩ := lastChunkStart_spec request.hidden.length positive
  obtain ⟨updated, -⟩ := prefillAndDraft_holds (K := network.K) shifted positive
    (request.hidden.getLastD default) request.currentToken
  have rounded : (chunks * chunkSize + chunkSize - 1) / chunkSize = chunks := by
    have split : chunks * chunkSize + chunkSize - 1 = chunkSize - 1 + chunkSize * chunks := by
      rw [Nat.mul_comm chunkSize]
      omega
    rw [split, Nat.add_mul_div_left _ _ positive, Nat.div_eq_of_lt (by omega), Nat.zero_add]
  have filled := (prefillChunk_holds (K := network.K) shifted positive inside chunks
    (Nat.le_refl _)).counted
  rw [chainSlots_length _ _ _ _ (by rw [List.length_take, List.length_take, shifted]),
    List.length_take, Nat.min_eq_left inside] at filled
  unfold prefillAndDraft at updated
  unfold prefillOutputs draftedOutputs
  dsimp only at updated ⊢
  rw [lastStart, rounded] at updated ⊢
  apply List.map_congr_left
  intro slot member
  have small : slot < network.K := List.mem_range.mp member
  obtain ⟨hiddenLength, tokenLength⟩ := request.row_length
  have slots : (chainSlots network.K 0 request.hiddenRow request.tokenRow).length =
      request.hidden.length * network.K + network.K := by
    rw [chainSlots_length _ _ _ _ (by omega), hiddenLength, InitialRequest.total, request.paired,
      Nat.succ_mul]
  have positions : (request.hidden.drop (chunks * chunkSize) ++
      [request.hidden.getLastD default]).length = request.hidden.length - chunks * chunkSize + 1 := by
    rw [List.length_append, List.length_drop, List.length_singleton]
  have place : chunks * chunkSize * network.K + (request.hidden.length - chunks * chunkSize) *
      network.K = request.hidden.length * network.K := by
    rw [← Nat.add_mul, Nat.add_sub_cancel' inside]
  have count := updated.counted.trans slots
  congr 2
  rw [← request.paired]
  refine attended_cells updated (by rw [slots]; omega) (by rw [count]; omega) (fun index => ?_)
  rw [treeMask_eq, filled, positions, Nat.succ_mul]
  congr 2
  omega

end drafting

section sorted

variable {entries : List DraftEntry}

/-- Counts that never rise from one entry to the next are in falling order. -/
theorem chunkCount_falling
    (steady : (List.zip (entries.map DraftEntry.chunkCount)
      ((entries.map DraftEntry.chunkCount).drop 1)).any (fun pair => pair.1 < pair.2) = false) :
    entries.Pairwise (fun first second => second.chunkCount ≤ first.chunkCount) := by
  induction entries with
  | nil => exact List.Pairwise.nil
  | cons first rest ih =>
    cases rest with
    | nil => simp
    | cons second more =>
      simp only [List.map_cons, List.drop_succ_cons, List.drop_zero, List.zip_cons_cons,
        List.any_cons, Bool.or_eq_false_iff, decide_eq_false_iff_not] at steady
      have later := ih (by simpa using steady.2)
      have next : second.chunkCount ≤ first.chunkCount := Nat.le_of_not_lt steady.1
      refine List.pairwise_cons.mpr ⟨fun entry member => ?_, later⟩
      rcases List.mem_cons.mp member with rfl | member
      · exact next
      · exact ((List.pairwise_cons.mp later).1 entry member).trans next

theorem sortInitialEntries_falling (entries : List DraftEntry) :
    (sortInitialEntries entries).Pairwise (fun first second => second.chunkCount ≤ first.chunkCount) := by
  unfold sortInitialEntries
  dsimp only
  split
  next =>
    have ordered := List.pairwise_mergeSort
      (fun (a b c : DraftEntry) (fewer : decide (b.chunkCount ≤ a.chunkCount) = true)
        (still : decide (c.chunkCount ≤ b.chunkCount) = true) =>
          decide_eq_true ((of_decide_eq_true still).trans (of_decide_eq_true fewer)))
      (fun a b => by simpa using Nat.le_total b.chunkCount a.chunkCount) entries
    exact ordered.imp (fun fewer => of_decide_eq_true fewer)
  next steady => exact chunkCount_falling (Bool.eq_false_iff.mpr steady)

theorem sortInitialEntries_perm (entries : List DraftEntry) :
    (sortInitialEntries entries).Perm entries := by
  unfold sortInitialEntries
  dsimp only
  split
  · exact List.mergeSort_perm _ _
  · exact List.Perm.refl _

theorem requestsAlone_ordered [Inhabited H] (network : DraftNetwork S H O)
    (hiddenSources : Nat → Nat → S)
    (falling : entries.Pairwise (fun first second => second.chunkCount ≤ first.chunkCount)) :
    Ordered (requestsAlone network hiddenSources entries) := by
  unfold Ordered requestsAlone
  rw [List.pairwise_map]
  exact falling

end sorted

/-- The first drafts of a batch, sorted as the batch is: no check fails, every row holds the
slots of its request's positions, each once and in order, with the last hidden row at the last
two, and is as long as they are; and its outputs are those of its last position. A request
prefilled alone holds the same slots, ends at the same position and has the same outputs. -/
theorem buildInitialDraftsBatched_alone [Inhabited H] (network : DraftNetwork S H O)
    (hiddenSources : Nat → Nat → S) (entries : List DraftEntry) (maxNewTokens : Nat)
    (slots : 0 < network.K) (layered : 0 < network.numLayers)
    (projects : ∀ kernel, network.kernel = some kernel → kernel.Projects network.project)
    (nonempty : entries ≠ []) (asked : 0 < maxNewTokens) :
    (sortInitialEntries entries).Perm entries ∧
      ∃ final, buildInitialDraftsBatched network hiddenSources (sortInitialEntries entries)
          maxNewTokens = .ok (final, (sortInitialEntries entries).map DraftEntry.total) ∧
        ∀ (row : Nat) (entry : DraftEntry), (sortInitialEntries entries)[row]? = some entry →
          let request := entry.request network.project hiddenSources
          let shiftedIds := request.promptIds.drop 1 ++ [request.currentToken]
          let lastHidden := request.hidden.getLastD default
          let fed := chainSlots network.K 0 (request.hidden ++ [lastHidden])
            (shiftedIds ++ [request.currentToken])
          let alone := prefillAndDraft network.K request.hidden shiftedIds lastHidden
            request.currentToken 64
          final.cache.RowHolds row fed ∧
            final.cache.lengthsHost[row]? = some ((entry.promptLen + 1) * network.K) ∧
            final.finalOutputs[row]? = some (some (draftedOutputs network request)) ∧
            alone.1.Holds fed ∧ alone.2 = entry.total ∧
            prefillOutputs network request.hidden shiftedIds lastHidden request.currentToken 64 =
              draftedOutputs network request := by
  have reordered := sortInitialEntries_perm entries
  have ordered := requestsAlone_ordered network hiddenSources (sortInitialEntries_falling entries)
  refine ⟨reordered, ?_⟩
  generalize sortInitialEntries entries = sorted at reordered ordered
  have present : sorted ≠ [] := fun empty => nonempty (by simpa [empty] using reordered.symm)
  have prompts : (requestsAlone network hiddenSources sorted).map
      (fun request => request.promptIds.length) = sorted.map DraftEntry.promptLen := by
    simp [requestsAlone, Function.comp_def, DraftEntry.request, DraftEntry.promptLen]
  have begun := initialCache_holds (K := network.K) network.numLayers maxNewTokens
    (requestsAlone network hiddenSources sorted)
  rw [initialCache, prompts] at begun
  have enough : ∀ request ∈ requestsAlone network hiddenSources sorted, request.total * network.K ≤
      (maximum (sorted.map DraftEntry.promptLen) + maxNewTokens) * network.K := by
    intro request member
    have longest := le_maximum _ _ (List.mem_map_of_mem (f := fun request : InitialRequest H =>
      request.promptIds.length) member)
    rw [prompts] at longest
    apply Nat.mul_le_mul_right
    rw [InitialRequest.total]
    omega
  have totals : (requestsAlone network hiddenSources sorted).map InitialRequest.total =
      sorted.map DraftEntry.total := requestsAlone_totals
  have largest := (maximum_spec (sorted.map DraftEntry.total) (by simpa using present)).1
  have left : ∀ chunk < (maximum (sorted.map DraftEntry.total) + 63) / 64,
      ∃ request ∈ requestsAlone network hiddenSources sorted, chunk * 64 < request.total := by
    intro chunk few
    rw [← totals] at largest few
    obtain ⟨request, member, same⟩ := List.mem_map.mp largest
    exact ⟨request, member, by omega⟩
  have starts : DraftingHolds network hiddenSources sorted
      ((maximum (sorted.map DraftEntry.promptLen) + maxNewTokens) * network.K) 0
      (initialDrafting network sorted maxNewTokens) := by
    refine ⟨by simpa [initialDrafting, requestsAlone] using begun, by simp [initialDrafting], ?_⟩
    intro row entry listed
    rw [if_neg (by simp [DraftEntry.total]), initialDrafting, List.getElem?_map, listed,
      Option.map_some]
  obtain ⟨final, ran, done⟩ := initialChunks_hold slots layered projects ordered enough starts _ left
  refine ⟨final, ?_, ?_⟩
  · unfold buildInitialDraftsBatched
    simp only [ran, bind, Except.bind, pure, Except.pure]
  · intro row entry listed
    dsimp only
    have listedAlone : (requestsAlone network hiddenSources sorted)[row]? =
        .some (entry.request network.project hiddenSources) := by
      rw [requestsAlone, List.getElem?_map, listed, Option.map_some]
    have reached : entry.total ≤ (maximum (sorted.map DraftEntry.total) + 63) / 64 * 64 := by
      have bounded := le_maximum _ _ (List.mem_map_of_mem (f := DraftEntry.total)
        (List.mem_of_getElem? listed))
      omega
    have row_holds := done.holds.rows row _ listedAlone
    rw [InitialRequest.slotsBefore_all _ reached] at row_holds
    have finals := done.finals row entry listed
    rw [if_pos reached] at finals
    have shifted : ((entry.request network.project hiddenSources).promptIds.drop 1 ++
        [(entry.request network.project hiddenSources).currentToken]).length =
          (entry.request network.project hiddenSources).hidden.length := by
      have size := List.length_pos_of_ne_nil entry.nonempty
      rw [InitialRequest.paired, List.length_append, List.length_drop, List.length_singleton]
      exact Nat.sub_add_cancel size
    obtain ⟨held, position⟩ := prefillAndDraft_holds (K := network.K) shifted (show 0 < 64 by decide)
      ((entry.request network.project hiddenSources).hidden.getLastD default)
      (entry.request network.project hiddenSources).currentToken
    have count := row_holds.counted
    rw [← InitialRequest.slotsBefore_all _ (Nat.le_refl _), InitialRequest.slotsBefore_length,
      Nat.min_self] at count
    refine ⟨row_holds, count, finals, held, ?_, prefillOutputs_eq _ (by decide)⟩
    rw [position, InitialRequest.paired]
    rfl

/-- A draft of two slots and one layer that counts what a slot sees, with a kernel that reads the
source rows as the gather does. -/
def countingNetwork : DraftNetwork Nat Nat Nat where
  K := 2
  numLayers := 1
  project := fun hidden => hidden + 1
  kernel := some (fun hiddenSources sourceRows sourceLengths starts _ _ row column =>
    hiddenSources (sourceRows.getD row 0)
      (min (starts.getD row 0 + column) (sourceLengths.getD row 0 - 1)) + 1)
  compute := fun seen => (seen.map List.length).sum

/-- Prompts of one token, of a whole chunk and of one token less, given in this order. -/
def mixedEntries : List DraftEntry :=
  [⟨0, [7], 3, by simp⟩, ⟨1, List.replicate 64 5, 4, by simp⟩, ⟨2, List.replicate 63 6, 9, by simp⟩]

/-- Prompts around the chunk size are drafted together. -/
theorem buildInitialDraftsBatched_alone_mixed :
    (sortInitialEntries mixedEntries).Perm mixedEntries ∧
      ∃ final, buildInitialDraftsBatched countingNetwork (fun row column => 100 * row + column)
          (sortInitialEntries mixedEntries) 4 =
            .ok (final, (sortInitialEntries mixedEntries).map DraftEntry.total) :=
  have drafted := buildInitialDraftsBatched_alone countingNetwork
    (fun row column => 100 * row + column) mixedEntries 4 (by decide) (by decide)
    (fun kernel given => by
      obtain rfl := Option.some.inj given
      intro hiddenSources sourceRows sourceLengths starts lengths maxPositions row column _ _
      rfl)
    (by simp [mixedEntries]) (by decide)
  ⟨drafted.1, drafted.2.choose, drafted.2.choose_spec.1⟩

end SpecBlock.Draft
