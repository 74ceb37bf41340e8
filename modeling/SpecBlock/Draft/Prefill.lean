import SpecBlock.Draft.ScalarRounds

/-!
# What a prompt leaves in the draft cache

Prefill pairs the target's hidden row of each prompt token with the token after it and counts
positions from one: this is the pairing block 1 was trained on. The prompt is fed in chunks,
and the last chunk also carries the first drafted position, a second copy of the last prompt
token's row.

`pairedSlots` is the general form of such a context: hidden rows of consecutive tokens, each
with a later token and a shifted position. Without any shift it is what prefill stores.

Compaction of long prompts is off by default and left out.
-/

namespace SpecBlock.Draft

variable {H : Type} {K : Nat}

/-- First position of the last chunk. -/
def lastChunkStart (length chunkSize : Nat) : Nat :=
  if length % chunkSize ≠ 0 then length - length % chunkSize else length - chunkSize

/-- Block 1 over several positions that are only kept in the cache. -/
def forwardBatchCache (K : Nat) (hidden : List H) (inputIds : List Nat) (startPosition : Nat)
    (cache : LivePrefix (CrossSlot H)) : LivePrefix (CrossSlot H) :=
  cache.append (chainSlots K startPosition hidden inputIds)

/-- One chunk before the last. -/
def prefillChunk (K : Nat) (hidden : List H) (inputIds : List Nat) (chunkSize lastStart : Nat)
    (cache : LivePrefix (CrossSlot H)) (chunk : Nat) : LivePrefix (CrossSlot H) :=
  let start := chunk * chunkSize
  let stop := min (start + chunkSize) lastStart
  if start < stop then
    forwardBatchCache K ((hidden.drop start).take (stop - start))
      ((inputIds.drop start).take (stop - start)) start cache
  else cache

/-- Prefill of a prompt and the first drafted position. Returns the cache and the position. -/
def prefillAndDraft (K : Nat) (hidden : List H) (inputIds : List Nat) (draftHidden : H)
    (draftInputId : Nat) (chunkSize : Nat) : LivePrefix (CrossSlot H) × Nat :=
  let lastStart := lastChunkStart hidden.length chunkSize
  let filled := (List.range ((lastStart + chunkSize - 1) / chunkSize)).foldl
    (prefillChunk K hidden inputIds chunkSize lastStart) LivePrefix.blank
  updateCacheAndDraft K (hidden.drop lastStart ++ [draftHidden])
    (inputIds.drop lastStart ++ [draftInputId]) lastStart filled

/-- The last chunk starts at a multiple of the chunk size, inside the prompt. -/
theorem lastChunkStart_spec (length : Nat) {chunkSize : Nat} (positive : 0 < chunkSize) :
    ∃ chunks, lastChunkStart length chunkSize = chunks * chunkSize ∧
      chunks * chunkSize ≤ length := by
  have whole : length / chunkSize * chunkSize + length % chunkSize = length := by
    rw [Nat.mul_comm]
    exact Nat.div_add_mod _ _
  unfold lastChunkStart
  split
  next ragged => exact ⟨length / chunkSize, by omega, by omega⟩
  next even =>
    refine ⟨length / chunkSize - 1, ?_, ?_⟩
    · rw [Nat.sub_mul, Nat.one_mul]
      omega
    · rw [Nat.sub_mul]
      omega

/-- Chunks before the last hold the positions before the last chunk. -/
theorem prefillChunk_holds {hidden : List H} {inputIds : List Nat} {chunkSize chunks : Nat}
    (paired : inputIds.length = hidden.length) (positive : 0 < chunkSize)
    (inside : chunks * chunkSize ≤ hidden.length) (count : Nat) (few : count ≤ chunks) :
    ((List.range count).foldl (prefillChunk K hidden inputIds chunkSize (chunks * chunkSize))
      LivePrefix.blank).Holds
        (chainSlots K 0 (hidden.take (count * chunkSize)) (inputIds.take (count * chunkSize))) := by
  induction count with
  | zero => simpa [chainSlots] using LivePrefix.holds_blank
  | succ count ih =>
    have earlier := ih (by omega)
    have within : (count + 1) * chunkSize ≤ chunks * chunkSize := Nat.mul_le_mul_right _ few
    have next : (count + 1) * chunkSize = count * chunkSize + chunkSize := Nat.succ_mul _ _
    have stop : min (count * chunkSize + chunkSize) (chunks * chunkSize) - count * chunkSize =
        chunkSize := by omega
    rw [List.range_succ, List.foldl_append, List.foldl_cons, List.foldl_nil]
    unfold prefillChunk forwardBatchCache
    dsimp only
    rw [stop]
    split
    next some =>
      have appended := earlier.append (chainSlots K (count * chunkSize : Nat)
        ((hidden.drop (count * chunkSize)).take chunkSize)
        ((inputIds.drop (count * chunkSize)).take chunkSize))
      rw [next, List.take_add, List.take_add, chainSlots_append _ _ _ _ _ _ (by simp [paired]),
        List.length_take, Nat.min_eq_left (by omega), Int.zero_add]
      exact appended
    next none => omega

/-- Prefill keeps all positions of the prompt and the drafted one, whatever the chunk size. -/
theorem prefillAndDraft_holds {hidden : List H} {inputIds : List Nat} {chunkSize : Nat}
    (paired : inputIds.length = hidden.length) (positive : 0 < chunkSize) (draftHidden : H)
    (draftInputId : Nat) :
    (prefillAndDraft K hidden inputIds draftHidden draftInputId chunkSize).1.Holds
        (chainSlots K 0 (hidden ++ [draftHidden]) (inputIds ++ [draftInputId])) ∧
      (prefillAndDraft K hidden inputIds draftHidden draftInputId chunkSize).2 =
        hidden.length + 1 := by
  obtain ⟨chunks, lastStart, inside⟩ := lastChunkStart_spec hidden.length positive
  have rounded : (chunks * chunkSize + chunkSize - 1) / chunkSize = chunks := by
    have split : chunks * chunkSize + chunkSize - 1 = chunkSize - 1 + chunkSize * chunks := by
      rw [Nat.mul_comm chunkSize]
      omega
    rw [split, Nat.add_mul_div_left _ _ positive, Nat.div_eq_of_lt (by omega), Nat.zero_add]
  unfold prefillAndDraft updateCacheAndDraft
  dsimp only
  rw [lastStart, rounded]
  constructor
  · have filled := prefillChunk_holds (K := K) paired positive inside chunks (Nat.le_refl _)
    have last := filled.append (chainSlots K (chunks * chunkSize : Nat)
      (hidden.drop (chunks * chunkSize) ++ [draftHidden])
      (inputIds.drop (chunks * chunkSize) ++ [draftInputId]))
    have joined := chainSlots_append K 0 (hidden.take (chunks * chunkSize))
      (hidden.drop (chunks * chunkSize) ++ [draftHidden]) (inputIds.take (chunks * chunkSize))
      (inputIds.drop (chunks * chunkSize) ++ [draftInputId]) (by simp [paired])
    rw [← List.append_assoc, ← List.append_assoc, List.take_append_drop, List.take_append_drop,
      List.length_take, Nat.min_eq_left inside, Int.zero_add] at joined
    rw [joined]
    exact last
  · rw [List.length_append, List.length_drop, List.length_singleton]
    omega

/-- Slots of consecutive tokens: the hidden row of each, a token `tokenShift` further than the
next one, and a position `positionShift` further than the token's index. -/
def pairedSlots (K : Nat) (hiddenOf : List Nat → H) (tokens : List Nat)
    (tokenShift positionShift first count : Nat) : List (CrossSlot H) :=
  chainSlots K (first + positionShift : Nat)
    ((List.range' first count).map (fun index => hiddenOf (tokens.take (index + 1))))
    ((tokens.drop (first + 1 + tokenShift)).take count)

/-- What prefilling a sequence stores for some of its tokens. -/
def prefilledSlots (K : Nat) (hiddenOf : List Nat → H) (tokens : List Nat) (first count : Nat) :
    List (CrossSlot H) :=
  pairedSlots K hiddenOf tokens 0 0 first count

/-- The target's hidden rows of a prompt: each is a function of the tokens up to its own. -/
def promptHidden (hiddenOf : List Nat → H) (prompt : List Nat) : List H :=
  (List.range prompt.length).map (fun index => hiddenOf (prompt.take (index + 1)))

/-- The draft of a prompt whose first token was decoded. -/
def promptDraft (K : Nat) (hiddenOf : List Nat → H) (prompt : List Nat) (firstToken : Nat) :
    ScalarDraft H :=
  let shiftedInputIds := prompt.drop 1 ++ [firstToken]
  let filled := prefillAndDraft K (promptHidden hiddenOf prompt) shiftedInputIds (hiddenOf prompt)
    firstToken 64
  ⟨filled.1, filled.2⟩

/-- The context a prompt leaves: its tokens' slots and those of the drafted position. -/
def promptContext (K : Nat) (hiddenOf : List Nat → H) (prompt : List Nat) (firstToken : Nat) :
    PromptContext K H where
  slots := prefilledSlots K hiddenOf (prompt ++ [firstToken]) 0 prompt.length ++
    positionSlots K (hiddenOf prompt) firstToken prompt.length
  draftPosition := prompt.length + 1
  drafted := by simp

theorem promptDraft_represents (hiddenOf : List Nat → H) {prompt : List Nat} (nonempty : prompt ≠ [])
    (firstToken : Nat) :
    (promptDraft K hiddenOf prompt firstToken).Represents
      (promptContext K hiddenOf prompt firstToken).toDraftContext := by
  have size := List.length_pos_of_ne_nil nonempty
  have paired : (prompt.drop 1 ++ [firstToken]).length = (promptHidden hiddenOf prompt).length := by
    simp only [List.length_append, List.length_drop, List.length_singleton, promptHidden,
      List.length_map, List.length_range]
    omega
  obtain ⟨holds, position⟩ :=
    prefillAndDraft_holds (K := K) paired (show 0 < 64 by decide) (hiddenOf prompt) firstToken
  have rows : promptHidden hiddenOf prompt = (List.range' 0 prompt.length).map
      (fun index => hiddenOf ((prompt ++ [firstToken]).take (index + 1))) := by
    rw [promptHidden, List.range_eq_range']
    apply List.map_congr_left
    intro index member
    have inside : index < prompt.length := by simpa using member
    rw [List.take_append_of_le_length (by omega)]
  have shifted : prompt.drop 1 ++ [firstToken] =
      ((prompt ++ [firstToken]).drop (0 + 1 + 0)).take prompt.length := by
    rw [List.drop_append_of_le_length (by omega), List.take_of_length_le]
    simp only [List.length_append, List.length_drop, List.length_singleton]
    omega
  have last := chainSlots_append K 0 (promptHidden hiddenOf prompt) [hiddenOf prompt]
    (prompt.drop 1 ++ [firstToken]) [firstToken] paired
  rw [chainSlots_single, Int.zero_add] at last
  have rowCount : (promptHidden hiddenOf prompt).length = prompt.length := by simp [promptHidden]
  constructor
  · show LivePrefix.Holds _ (pairedSlots K hiddenOf (prompt ++ [firstToken]) 0 0 0 prompt.length ++ _)
    rw [pairedSlots, ← rows, ← shifted]
    rw [last, rowCount] at holds
    exact holds
  · exact position.trans (by rw [rowCount]; rfl)

end SpecBlock.Draft
