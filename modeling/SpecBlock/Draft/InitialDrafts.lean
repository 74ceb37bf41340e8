import SpecBlock.Draft.BatchedRounds

/-!
# The first drafts of a batch

The prompts are fed to a new draft cache in chunks of sixty-four positions, all requests side
by side, each with its drafted position behind its prompt. Requests are ordered by the number
of chunks they need, so that those with positions left in a chunk come first.

Every chunk then passes the checks of the ragged forward. Afterwards each row holds its
request's slots, which is how the batched loop starts.
-/

namespace SpecBlock.Draft

open Serving Batch

variable {H : Type} {K : Nat}

/-- A request to draft for: its prompt, the hidden rows of it, and its first token. -/
structure InitialRequest (H : Type) where
  promptIds : List Nat
  hidden : List H
  currentToken : Nat
  nonempty : promptIds ≠ []
  paired : hidden.length = promptIds.length

namespace InitialRequest

/-- Tokens fed: the prompt's shifted by one, the first token twice. -/
def tokenRow (request : InitialRequest H) : List Nat :=
  (request.promptIds.drop 1 ++ [request.currentToken]) ++ [request.currentToken]

/-- Positions fed. -/
def total (request : InitialRequest H) : Nat := request.promptIds.length + 1

/-- Chunks needed. -/
def chunks (request : InitialRequest H) : Nat := (request.promptIds.length + 64) / 64

/-- Hidden rows of all positions: the last one of the prompt comes twice. -/
def hiddenRow [Inhabited H] (request : InitialRequest H) : List H :=
  request.hidden ++ [request.hidden.getLastD default]

/-- Slots of the positions before a column. -/
def slotsBefore [Inhabited H] (K : Nat) (request : InitialRequest H) (column : Nat) :
    List (CrossSlot H) :=
  chainSlots K 0 (request.hiddenRow.take column) (request.tokenRow.take column)

end InitialRequest

/-- Valid positions of a row in a chunk. -/
def chunkValid (start total : Nat) : Nat := min 64 (total - start)

/-- Rows whose last position is in a chunk. -/
def finishingRows (start : Nat) (totals : List Nat) : List Nat :=
  (List.range totals.length).filter (fun row =>
    start < totals.getD row 0 ∧ totals.getD row 0 ≤ start + 64)

/-- Outputs are kept of computed rows only. -/
def checkFinishing (start : Nat) (totals : List Nat) : Except String Unit :=
  if (finishingRows start totals).getLast?.any
      (fun row => activeCount (totals.map (chunkValid start)) ≤ row) then
    .error "finishing draft rows must belong to the computed active prefix"
  else .ok ()

/-- One chunk of `_build_initial_drafts_batched`. -/
def draftChunk [Inhabited H] (K : Nat) (requests : List (InitialRequest H)) (start : Nat)
    (cache : DraftBatchCache (CrossSlot H)) : Except String (DraftBatchCache (CrossSlot H)) := do
  let totals := requests.map InitialRequest.total
  let following ← runInitialRaggedDraftForward K cache (requests.map InitialRequest.hidden)
    (requests.map (fun request => (request.tokenRow.drop start).take 64))
    (requests.map (fun _ => start)) (totals.map (chunkValid start))
  checkFinishing start totals
  return following

/-- The cache the prompts are drafted into. -/
def initialCache (K numLayers maxNewTokens : Nat) (requests : List (InitialRequest H)) :
    DraftBatchCache (CrossSlot H) :=
  DraftBatchCache.new numLayers requests.length
    ((maximum (requests.map (fun request => request.promptIds.length)) + maxNewTokens) * K)

/-- Requests that need more chunks come first. -/
def Ordered (requests : List (InitialRequest H)) : Prop :=
  requests.Pairwise (fun first second => second.chunks ≤ first.chunks)

theorem activeCount_leading {validLengths : List Nat}
    (last : validLengths.Pairwise (fun first second => first = 0 → second = 0)) :
    (∀ valid ∈ validLengths.take (activeCount validLengths), valid ≠ 0) ∧
      ∀ valid ∈ validLengths.drop (activeCount validLengths), valid = 0 := by
  induction validLengths with
  | nil => simp
  | cons first rest ih =>
    obtain ⟨following, later⟩ := List.pairwise_cons.mp last
    obtain ⟨leading, suffix⟩ := ih later
    cases first with
    | zero =>
      have none : activeCount (0 :: rest) = 0 := by
        apply List.countP_eq_zero.mpr
        intro valid member
        rcases List.mem_cons.mp member with rfl | member
        · simp
        · simp [following valid member rfl]
      rw [none]
      refine ⟨by simp, fun valid member => ?_⟩
      rcases List.mem_cons.mp member with rfl | member
      · rfl
      · exact following valid member rfl
    | succ first =>
      have more : activeCount (first.succ :: rest) = activeCount rest + 1 := by
        simp [activeCount]
      rw [more, List.take_succ_cons, List.drop_succ_cons]
      refine ⟨fun valid member => ?_, suffix⟩
      rcases List.mem_cons.mp member with rfl | member
      · exact Nat.succ_ne_zero first
      · exact leading valid member

/-- A row has positions in a chunk exactly if it needs that many chunks. -/
theorem chunkValid_eq_zero (chunk : Nat) (request : InitialRequest H) :
    chunkValid (chunk * 64) request.total = 0 ↔ request.chunks ≤ chunk := by
  unfold chunkValid InitialRequest.total InitialRequest.chunks
  omega

theorem chunkValid_leading {requests : List (InitialRequest H)} (ordered : Ordered requests)
    (chunk : Nat) :
    ((requests.map InitialRequest.total).map (chunkValid (chunk * 64))).Pairwise
      (fun first second => first = 0 → second = 0) := by
  rw [List.map_map, List.pairwise_map]
  refine ordered.imp (fun {first second} fewer => ?_)
  show chunkValid (chunk * 64) first.total = 0 → chunkValid (chunk * 64) second.total = 0
  rw [chunkValid_eq_zero, chunkValid_eq_zero]
  omega

/-- A cache the prompts are fed to, before a chunk: every row holds the slots so far. -/
structure ChunkHolds [Inhabited H] (K numLayers capacity : Nat) (requests : List (InitialRequest H))
    (start : Nat) (cache : DraftBatchCache (CrossSlot H)) : Prop where
  consistent : cache.Consistent
  declared : cache.layers.map DraftLayer.maxCacheLen = List.replicate numLayers capacity
  sized : cache.lengthsHost.length = requests.length
  stored : 0 < start → ∀ layer ∈ cache.layers, layer.storage ≠ none
  rows : ∀ row request, requests[row]? = some request →
    cache.RowHolds row (request.slotsBefore K start)

section chunk

variable [Inhabited H] {requests : List (InitialRequest H)} {request : InitialRequest H}

/-- A request feeds as many tokens as hidden rows, one more than its prompt has. -/
theorem InitialRequest.row_length (request : InitialRequest H) :
    request.hiddenRow.length = request.total ∧ request.tokenRow.length = request.total := by
  have size := List.length_pos_of_ne_nil request.nonempty
  constructor
  · simp [hiddenRow, total, request.paired]
  · simp [tokenRow, total]
    omega

/-- The hidden row fed at a position: the prompt's, the last of them repeated. -/
theorem InitialRequest.hiddenRow_read {position : Nat} {hidden : H}
    (read : request.hiddenRow[position]? = some hidden) :
    request.hidden.getD (min position (request.hidden.length - 1)) default = hidden := by
  have size := List.length_pos_of_ne_nil request.nonempty
  rw [← request.paired] at size
  unfold hiddenRow at read
  by_cases inside : position < request.hidden.length
  · rw [List.getElem?_append_left inside] at read
    rw [Nat.min_eq_left (by omega), List.getD_eq_getElem?_getD, read, Option.getD_some]
  · rw [List.getElem?_append_right (by omega)] at read
    have last : request.hidden.getLastD default = hidden := by
      have single := List.mem_of_getElem? read
      exact (List.mem_singleton.mp single).symm
    rw [Nat.min_eq_right (by omega), ← last, List.getLastD_eq_getLast?, List.getLast?_eq_getElem?,
      List.getD_eq_getElem?_getD]

theorem InitialRequest.slotsBefore_length (request : InitialRequest H) (column : Nat) :
    (request.slotsBefore K column).length = min column request.total * K := by
  obtain ⟨rows, tokens⟩ := request.row_length
  rw [slotsBefore, chainSlots_length _ _ _ _ (by simp [rows, tokens]), List.length_take, rows]

theorem InitialRequest.slotsBefore_chunk (request : InitialRequest H) (start : Nat) :
    request.slotsBefore K (start + 64) = request.slotsBefore K start ++
      chainSlots K (start : Nat) ((request.hiddenRow.drop start).take 64)
        ((request.tokenRow.drop start).take 64) := by
  obtain ⟨rows, tokens⟩ := request.row_length
  unfold slotsBefore
  rw [List.take_add, List.take_add, chainSlots_append _ _ _ _ _ _ (by simp [rows, tokens]),
    List.length_take, rows, Int.zero_add]
  by_cases inside : start ≤ request.total
  · rw [Nat.min_eq_left inside]
  · rw [List.drop_eq_nil_of_le (by omega)]
    simp [chainSlots]

theorem initialCache_holds (numLayers maxNewTokens : Nat) (requests : List (InitialRequest H)) :
    ChunkHolds K numLayers
      ((maximum (requests.map (fun request => request.promptIds.length)) + maxNewTokens) * K) requests 0
      (initialCache K numLayers maxNewTokens requests) := by
  refine ⟨DraftBatchCache.new_consistent _ _ _, ?_, ?_, fun late => absurd late (Nat.lt_irrefl 0), ?_⟩
  · simp [initialCache, DraftBatchCache.new]
  · simp [initialCache, DraftBatchCache.new]
  · intro row request listed
    have inside := (List.getElem?_eq_some_iff.mp listed).1
    have empty : request.slotsBefore K 0 = [] := by simp [InitialRequest.slotsBefore, chainSlots]
    rw [empty]
    exact DraftBatchCache.new_rowHolds numLayers requests.length _ row inside

omit [Inhabited H] in
theorem cacheCapacity_declared {layers : List (DraftLayer (CrossSlot H))} {numLayers capacity : Nat}
    (declared : layers.map DraftLayer.maxCacheLen = List.replicate numLayers capacity)
    (layered : 0 < numLayers) : cacheCapacity layers = capacity := by
  unfold cacheCapacity
  rw [declared, List.min?_replicate_of_pos layered]
  rfl

variable {numLayers capacity chunk : Nat} {cache : DraftBatchCache (CrossSlot H)}

theorem chunk_checked (layered : 0 < numLayers) (ordered : Ordered requests)
    (enough : ∀ request ∈ requests, request.total * K ≤ capacity)
    (left : ∃ request ∈ requests, chunk * 64 < request.total)
    (holds : ChunkHolds K numLayers capacity requests (chunk * 64) cache) :
    RaggedChecked K cache ((requests.map InitialRequest.total).map (chunkValid (chunk * 64))) := by
  obtain ⟨leading, suffix⟩ := activeCount_leading (chunkValid_leading ordered chunk)
  obtain ⟨longest, member, unfinished⟩ := left
  have listed : chunkValid (chunk * 64) longest.total ∈
      (requests.map InitialRequest.total).map (chunkValid (chunk * 64)) :=
    List.mem_map_of_mem (List.mem_map_of_mem member)
  refine ⟨List.ne_nil_of_mem listed, ?_, leading, suffix, ?_, ?_⟩
  · have largest := le_maximum _ _ listed
    unfold chunkValid at largest ⊢
    omega
  · intro none
    have size := congrArg List.length holds.declared
    simp only [none, List.map_nil, List.length_nil, List.length_replicate] at size
    omega
  · rw [cacheCapacity_declared holds.declared layered]
    apply maxTotalSlots_le
    intro row count valid counted read
    rw [List.map_map, List.getElem?_map, Option.map_eq_some_iff] at read
    obtain ⟨request, atRow, rfl⟩ := read
    have filled := (holds.rows row request atRow).counted
    rw [request.slotsBefore_length, counted] at filled
    rw [Option.some.inj filled, ← Nat.add_mul]
    refine Nat.le_trans (Nat.mul_le_mul_right K ?_) (enough request (List.mem_of_getElem? atRow))
    show min (chunk * 64) request.total + chunkValid (chunk * 64) request.total ≤ request.total
    unfold chunkValid
    omega

omit [Inhabited H] in
theorem checkFinishing_ok
    (checked : RaggedChecked K cache
      ((requests.map InitialRequest.total).map (chunkValid (chunk * 64)))) :
    checkFinishing (chunk * 64) (requests.map InitialRequest.total) = .ok () := by
  unfold checkFinishing
  rw [if_neg]
  intro late
  cases last : (finishingRows (chunk * 64) (requests.map InitialRequest.total)).getLast? with
  | none => simp [last] at late
  | some row =>
    have behind : activeCount ((requests.map InitialRequest.total).map (chunkValid (chunk * 64))) ≤
        row := by simpa [last] using late
    have member := List.mem_of_getLast? last
    rw [finishingRows, List.mem_filter, List.mem_range] at member
    obtain ⟨inside, finishing⟩ := member
    have none := checked.inactive behind
    rw [List.getD_eq_getElem?_getD, List.getElem?_map, List.getElem?_eq_getElem inside,
      Option.map_some, Option.getD_some] at none
    rw [List.getD_eq_getElem?_getD, List.getElem?_eq_getElem inside, Option.getD_some] at finishing
    have late := (of_decide_eq_true finishing).1
    unfold chunkValid at none
    omega

theorem chunkSlots {row : Nat} (listed : requests[row]? = some request) (start : Nat) :
    (List.range (((requests.map InitialRequest.total).map (chunkValid start)).getD row 0 * K)).map
      (raggedSlots K
        (fun row column => ((requests.map InitialRequest.hidden).getD row []).getD
          (min ((requests.map (fun _ => start)).getD row 0 + column)
            (((requests.map InitialRequest.hidden).getD row []).length - 1)) default)
        (paddedRows 0 (requests.map (fun request => (request.tokenRow.drop start).take 64))
          ((requests.map InitialRequest.total).map (chunkValid start)))
        (requests.map (fun _ => start)) row) =
      chainSlots K (start : Nat) ((request.hiddenRow.drop start).take 64)
        ((request.tokenRow.drop start).take 64) := by
  obtain ⟨rows, tokens⟩ := request.row_length
  have size := List.length_pos_of_ne_nil request.nonempty
  have valid : ((requests.map InitialRequest.total).map (chunkValid start)).getD row 0 =
      ((request.hiddenRow.drop start).take 64).length := by
    simp [List.getD_eq_getElem?_getD, listed, chunkValid, rows]
  rw [valid]
  apply map_eq_chainSlots _ _ _ (by simp [rows, tokens])
  intro column slot hidden token small readHidden readToken
  have inside := (List.getElem?_eq_some_iff.mp readHidden).1
  rw [List.getElem?_take, List.getElem?_drop] at readHidden readToken
  split at readHidden
  next early =>
    rw [if_pos early] at readToken
    have read := request.hiddenRow_read readHidden
    have valid : column < chunkValid start request.total := by
      unfold chunkValid
      rw [List.length_take, List.length_drop, rows] at inside
      omega
    have prompt : (requests.map InitialRequest.hidden).getD row [] = request.hidden := by
      simp [List.getD_eq_getElem?_getD, listed]
    have starts : (requests.map (fun _ => start)).getD row 0 = start := by
      rw [List.getD_eq_getElem?_getD, List.getElem?_map, listed]
      rfl
    have fed : paddedRows 0 (requests.map (fun request => (request.tokenRow.drop start).take 64))
        ((requests.map InitialRequest.total).map (chunkValid start)) row column = token := by
      simp [paddedRows, List.getD_eq_getElem?_getD, listed, valid, early, readToken]
    simp only [raggedSlots, Stores.address_div small, Stores.address_mod small, prompt, starts, fed,
      read, CrossSlot.mk.injEq, true_and]
    rw [add_right_comm (start : Int)]
  next => cases readHidden

/-- The forward of a chunk runs and leaves every row its slots up to the next chunk. -/
theorem chunkForward_holds (layered : 0 < numLayers) (ordered : Ordered requests)
    (enough : ∀ request ∈ requests, request.total * K ≤ capacity)
    (left : ∃ request ∈ requests, chunk * 64 < request.total)
    (holds : ChunkHolds K numLayers capacity requests (chunk * 64) cache) :
    ∃ following, runInitialRaggedDraftForward K cache (requests.map InitialRequest.hidden)
        (requests.map (fun request => (request.tokenRow.drop (chunk * 64)).take 64))
        (requests.map (fun _ => chunk * 64))
        ((requests.map InitialRequest.total).map (chunkValid (chunk * 64))) = .ok following ∧
      ChunkHolds K numLayers capacity requests ((chunk + 1) * 64) following := by
  have checked := chunk_checked layered ordered enough left holds
  have sized : ((requests.map InitialRequest.total).map (chunkValid (chunk * 64))).length =
      cache.activeBatchSize := by simp [DraftBatchCache.activeBatchSize, holds.sized]
  have sliced : activeCount ((requests.map InitialRequest.total).map (chunkValid (chunk * 64))) ≠
      cache.activeBatchSize → ∀ layer ∈ cache.layers, layer.storage ≠ none := by
    intro strict
    rcases Nat.eq_zero_or_pos (chunk * 64) with first | later
    · apply absurd _ strict
      rw [← sized]
      apply List.countP_eq_length.mpr
      intro valid member
      rw [List.map_map, List.mem_map] at member
      obtain ⟨request, -, rfl⟩ := member
      have positive : 0 < chunkValid (chunk * 64) request.total := by
        unfold chunkValid InitialRequest.total
        omega
      simpa using positive
    · exact holds.stored later
  have matching : decide ((requests.map InitialRequest.hidden).length =
        (requests.map (fun request => (request.tokenRow.drop (chunk * 64)).take 64)).length ∧
      (requests.map (fun _ => chunk * 64)).length =
        (requests.map (fun request => (request.tokenRow.drop (chunk * 64)).take 64)).length ∧
      ((requests.map InitialRequest.total).map (chunkValid (chunk * 64))).length =
        (requests.map (fun request => (request.tokenRow.drop (chunk * 64)).take 64)).length ∧
      cache.activeBatchSize =
        (requests.map (fun request => (request.tokenRow.drop (chunk * 64)).take 64)).length) = true := by
    simp [DraftBatchCache.activeBatchSize, holds.sized]
  obtain ⟨following, ran⟩ := raggedForward_total
    { unmatched := "initial ragged draft inputs must match active cache rows"
      empty := "initial ragged draft forward requires valid positions"
      scattered := "zero-length initial draft rows must form a contiguous suffix" }
    (fun row column => ((requests.map InitialRequest.hidden).getD row []).getD
      (min ((requests.map (fun _ => chunk * 64)).getD row 0 + column)
        (((requests.map InitialRequest.hidden).getD row []).length - 1)) default)
    (paddedRows 0 (requests.map (fun request => (request.tokenRow.drop (chunk * 64)).take 64))
      ((requests.map InitialRequest.total).map (chunkValid (chunk * 64))))
    (requests.map (fun _ => chunk * 64)) matching sized checked sliced
  have forward := raggedForward_ok holds.consistent ran
  refine ⟨following, ran, forward.consistent, forward.declared.trans holds.declared, ?_,
    fun _ => forward.stored, ?_⟩
  · rw [forward.lengths, List.length_zipWith, sized, DraftBatchCache.activeBatchSize, Nat.min_self,
      holds.sized]
  · intro row request listed
    have appended := forward.rows row _ (holds.rows row request listed)
    rw [chunkSlots listed] at appended
    rw [Nat.succ_mul, request.slotsBefore_chunk]
    exact appended

/-- A chunk is drafted without an error and leaves every row its slots up to the next chunk. -/
theorem draftChunk_holds (layered : 0 < numLayers) (ordered : Ordered requests)
    (enough : ∀ request ∈ requests, request.total * K ≤ capacity)
    (left : ∃ request ∈ requests, chunk * 64 < request.total)
    (holds : ChunkHolds K numLayers capacity requests (chunk * 64) cache) :
    ∃ following, draftChunk K requests (chunk * 64) cache = .ok following ∧
      ChunkHolds K numLayers capacity requests ((chunk + 1) * 64) following := by
  obtain ⟨following, ran, drafted⟩ := chunkForward_holds layered ordered enough left holds
  refine ⟨following, ?_, drafted⟩
  unfold draftChunk
  simp only [ran, checkFinishing_ok (chunk_checked layered ordered enough left holds), bind,
    Except.bind, pure, Except.pure]

end chunk

end SpecBlock.Draft
