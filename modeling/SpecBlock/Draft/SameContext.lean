import SpecBlock.Draft.CrossCache

/-!
# Training and inference contexts

After any run the live keys are the first block's keys of the positions fed, in order.
A drafted position then sees in its first block what the training mask shows it. In its
second block it sees the first block's keys of earlier positions, the valid slots of its
own and its own slots; the training mask shows it, besides these, the second block's keys
of earlier positions.
-/

namespace SpecBlock.Draft

namespace LayerCache

variable {cache : LayerCache} {keys added : List DraftKey}

/-- A cache whose live cells hold the given keys. -/
structure Holds (cache : LayerCache) (keys : List DraftKey) : Prop where
  counted : cache.count = keys.length
  stored : cache.live = keys.map some

theorem Holds.inside (holds : cache.Holds keys) : cache.count ≤ cache.cells.length := by
  have size := congrArg List.length holds.stored
  rw [live, List.length_take, List.length_map, ← holds.counted] at size
  omega

theorem ensureCacheBuf_spec (holds : cache.Holds keys) (needed : Nat) :
    (cache.ensureCacheBuf needed).cells.take cache.count = keys.map some ∧
      needed ≤ (cache.ensureCacheBuf needed).cells.length := by
  have inside := holds.inside
  have stored := holds.stored
  unfold live cells at stored
  unfold cells at inside
  unfold ensureCacheBuf
  cases allocated : cache.buffer with
  | none =>
    rw [allocated] at inside stored
    have empty : cache.count = 0 := by simpa using inside
    rw [empty] at stored
    refine ⟨?_, by simp [cells]⟩
    rw [empty, ← stored]
    simp
  | some buffer =>
    rw [allocated] at inside stored
    simp only [Option.getD_some] at inside stored
    dsimp only
    split
    next short =>
      have wide : cache.count ≤ max (buffer.length * 2) needed := by omega
      refine ⟨?_, ?_⟩
      · show (buffer.take cache.count ++ _).take cache.count = _
        rw [List.take_append_of_le_length (by simp [inside]), List.take_take, Nat.min_self]
        exact stored
      · show needed ≤ (buffer.take cache.count ++ _).length
        rw [List.length_append, List.length_take, Nat.min_eq_left inside, List.length_replicate]
        omega
    next enough =>
      simp only [cells, allocated, Option.getD_some]
      exact ⟨stored, by omega⟩

theorem Holds.append (holds : cache.Holds keys) (added : List DraftKey) :
    (cache.append added).Holds (keys ++ added) := by
  obtain ⟨kept, room⟩ := ensureCacheBuf_spec holds (cache.count + added.length)
  constructor
  · show cache.count + added.length = _
    rw [List.length_append, holds.counted]
  · have width : ((cache.ensureCacheBuf (cache.count + added.length)).cells.take cache.count ++
        added.map some).length = cache.count + added.length := by
      rw [kept, List.length_append, List.length_map, List.length_map, holds.counted]
    show ((cache.ensureCacheBuf (cache.count + added.length)).cells.take cache.count ++
      added.map some ++ _).take (cache.count + added.length) = _
    rw [List.take_append_of_le_length (Nat.le_of_eq width.symm), List.take_of_length_le
      (Nat.le_of_eq width), kept, List.map_append]

/-- Dropping the last position's slots leaves the earlier ones. -/
theorem Holds.popCache {last : List DraftKey} {K : Nat} (holds : cache.Holds (keys ++ last))
    (slots : last.length = K) : (cache.popCache K).Holds keys := by
  have counted := holds.counted
  rw [List.length_append, slots] at counted
  unfold LayerCache.popCache
  rw [if_pos (by omega)]
  constructor
  · show cache.count - K = _
    omega
  · have stored := congrArg (List.take keys.length) holds.stored
    rw [live, List.take_take, Nat.min_eq_left (by omega), List.map_append,
      List.take_left' (by simp)] at stored
    show cache.cells.take (cache.count - K) = _
    rw [show cache.count - K = keys.length by omega]
    exact stored

theorem Holds.treeAttention {K : Nat} (holds : cache.Holds keys) (current : List DraftKey)
    (query : Nat) : cache.treeAttention K current query =
      (keys ++ attended current (crossPositionCausalMask K query)).map some := by
  unfold LayerCache.treeAttention
  have size : cache.live.length = cache.count := by
    rw [holds.stored, List.length_map, holds.counted]
  rw [attended_append, size, attended_open, holds.stored, List.map_append]
  · congr 1
    rw [attended_map]
    congr 2
    funext index
    simp
  · intro index low
    have isLive : index < cache.count := by omega
    simp [isLive]

theorem attended_slots (block position slot K : Nat) (small : slot < K) :
    attended ((slotKeys block position K).map some) (fun index => decide (index ≤ slot)) =
      (slotKeys block position (slot + 1)).map some := by
  rw [attended_map, attended_first _ _ (slot + 1) (by rw [slotKeys_length]; omega),
    slotKeys_take _ _ _ _ (by omega)]
  intro index _
  exact decide_eq_decide.mpr Nat.lt_succ_iff.symm

end LayerCache

/-- The keys a slot sees in the first block at inference. -/
def draftedBlock1 (K position slot : Nat) : List DraftKey :=
  blockKeys 1 0 position K ++ slotKeys 1 position (slot + 1)

/-- The keys a slot sees in the second block at inference. -/
def draftedBlock2 (K M position slot : Nat) : List DraftKey :=
  blockKeys 1 0 position K ++ slotKeys 1 position M ++ slotKeys 2 position (slot + 1)

/-- The live keys are those of the positions fed; the last of them is being drafted. -/
structure Committed (K : Nat) (state : DraftState) : Prop where
  holds : state.cache.Holds (blockKeys 1 0 state.fed K)
  tttCache : 0 < state.fed → state.tttCache = (slotKeys 1 (state.fed - 1) K).map some
  seen : 0 < state.fed → ∀ slot, slot < K →
    state.seen slot = (draftedBlock1 K (state.fed - 1) slot).map some

namespace Committed

variable {K : Nat} {state : DraftState}

theorem start {maxCacheLen : Nat} (cache : state.cache = LayerCache.reset maxCacheLen)
    (fed : state.fed = 0) : Committed K state := by
  refine ⟨⟨?_, ?_⟩, fun some => by omega, fun some => by omega⟩
  · simp [cache, fed, LayerCache.reset]
  · simp [cache, fed, LayerCache.reset, LayerCache.live, LayerCache.cells, blockKeys]

theorem blockKeys_last (K first N : Nat) (some : 0 < N) :
    blockKeys 1 first N K = blockKeys 1 first (N - 1) K ++ slotKeys 1 (first + (N - 1)) K := by
  rw [← blockKeys_one, ← blockKeys_add, Nat.sub_add_cancel some]

theorem update (committed : Committed K state) (N : Nat) (some : 0 < N) :
    Committed K (state.updateCacheAndDraft K N) := by
  have fed : state.fed + N - 1 = state.fed + (N - 1) := by omega
  have following : blockKeys 1 0 (state.fed + N) K =
      blockKeys 1 0 state.fed K ++ blockKeys 1 state.fed N K := by
    rw [blockKeys_add, Nat.zero_add]
  constructor
  · show (state.cache.append (blockKeys 1 state.fed N K)).Holds (blockKeys 1 0 (state.fed + N) K)
    rw [following]
    exact committed.holds.append _
  · intro _
    show ((blockKeys 1 state.fed N K).drop ((N - 1) * K)).map Option.some =
      (slotKeys 1 (state.fed + N - 1) K).map Option.some
    rw [fed, blockKeys_last _ _ N some, List.drop_left' (by simp)]
  · intro _ slot small
    show state.cache.treeAttention K (blockKeys 1 state.fed N K) ((N - 1) * K + slot) =
      (draftedBlock1 K (state.fed + N - 1) slot).map Option.some
    have first : blockKeys 1 0 (state.fed + (N - 1)) K =
        blockKeys 1 0 state.fed K ++ blockKeys 1 state.fed (N - 1) K := by
      rw [blockKeys_add, Nat.zero_add]
    rw [committed.holds.treeAttention, attended_causal 1 _ (by omega) small, fed, draftedBlock1,
      first, List.append_assoc]

theorem redraft (committed : Committed K state) (fed : 0 < state.fed) :
    Committed K (state.popAndDraft K) := by
  have split := blockKeys_last K 0 state.fed fed
  rw [Nat.zero_add] at split
  have holds := committed.holds
  rw [split] at holds
  have popped := holds.popCache (slotKeys_length _ _ _)
  refine ⟨?_, fun _ => rfl, ?_⟩
  · show ((state.cache.popCache K).append (slotKeys 1 (state.fed - 1) K)).Holds
      (blockKeys 1 0 state.fed K)
    rw [split]
    exact popped.append _
  · intro _ slot small
    show LayerCache.threePartAttention (state.cache.popCache K).live (state.cache.popCache K).count
      [] [] (slotKeys 1 (state.fed - 1) K) slot = (draftedBlock1 K (state.fed - 1) slot).map some
    rw [LayerCache.threePartAttention, LayerCache.attended_slots _ _ _ _ small, popped.stored,
      popped.counted, attended_nil, List.append_nil, List.take_of_length_le (by simp),
      draftedBlock1, List.map_append]

theorem reachable (reached : (draftSystem K).Reachable state) : Committed K state := by
  refine reached.invariant (Committed K) ?_ ?_
  · rintro state ⟨maxCacheLen, cache, fed⟩
    exact start cache fed
  · intro state following committed taken
    cases taken with
    | update N some => exact committed.update N some
    | redraft fed => exact committed.redraft fed

/-- The second block sees the live keys without the last position's, the valid cached slots
and its own. -/
theorem block2Seen (committed : Committed K state) (fed : 0 < state.fed) {M slot : Nat}
    (within : M ≤ K) (small : slot < K) :
    state.block2Seen K M slot = (draftedBlock2 K M (state.fed - 1) slot).map some := by
  have split := blockKeys_last K 0 state.fed fed
  rw [Nat.zero_add] at split
  have holds := committed.holds
  rw [split] at holds
  have popped := holds.popCache (slotKeys_length _ _ _)
  have counted := holds.counted
  rw [List.length_append, blockKeys_length, slotKeys_length] at counted
  have enough : K ≤ state.cache.count := by omega
  have effective : state.cache.effectiveCrossCount K = (state.fed - 1) * K := by
    rw [LayerCache.effectiveCrossCount, if_pos enough, counted, Nat.add_sub_cancel]
  have earlier : state.cache.cells.take ((state.fed - 1) * K) =
      (blockKeys 1 0 (state.fed - 1) K).map some := by
    have stored := popped.stored
    rw [LayerCache.popCache, if_pos enough, LayerCache.live, counted, Nat.add_sub_cancel] at stored
    exact stored
  have cross : (if 0 < (state.fed - 1) * K then state.cache.cells.take ((state.fed - 1) * K)
      else []).take ((state.fed - 1) * K) = (blockKeys 1 0 (state.fed - 1) K).map some := by
    split
    · rw [List.take_take, Nat.min_self, earlier]
    next none =>
      have empty : (state.fed - 1) * K = 0 := by omega
      rw [← earlier, empty]
      simp
  have cached : attended (state.tttCache)
      (fun index => ((List.range K).map (fun slot => decide (slot < M))).getD index false) =
        (slotKeys 1 (state.fed - 1) M).map some := by
    rw [committed.tttCache fed, attended_map, attended_first _ _ M (by simpa using within),
      slotKeys_take _ _ _ _ within]
    intro index inside
    rw [slotKeys_length] at inside
    simp [List.getD_eq_getElem?_getD, inside]
  unfold DraftState.block2Seen
  rw [LayerCache.threePartAttention, effective, cross, cached,
    LayerCache.attended_slots _ _ _ _ small, draftedBlock2, List.map_append, List.map_append]

end Committed

/-- The second block shows a training position the keys of inference and the second block's
keys of earlier positions. -/
theorem trainedBlock2_perm {S K M position slot : Nat} {tttValidCounts : List Nat}
    (inside : position < S) (small : slot < K) (valid : tttValidCounts.getD position 0 = M)
    (within : M ≤ K) :
    (trainedBlock2 S K tttValidCounts position slot).Perm
      (draftedBlock2 K M position slot ++ blockKeys 2 0 position K) := by
  rw [trainedBlock2_eq tttValidCounts inside small valid within, draftedBlock2,
    List.append_assoc _ (slotKeys 2 position (slot + 1))]
  exact List.perm_append_comm.append_left _

theorem slotKeys_subset {block position count K : Nat} (within : count ≤ K) :
    ∀ key ∈ slotKeys block position count,
      key.block = block ∧ key.position = position ∧ key.slot < K := by
  intro key member
  obtain ⟨slot, low, rfl⟩ := List.mem_map.mp member
  exact ⟨rfl, rfl, Nat.lt_of_lt_of_le (List.mem_range.mp low) within⟩

/-- What a first block sees up to one of its slots is distinct. -/
theorem upTo_nodup (block position count K : Nat) :
    (blockKeys block 0 position K ++ slotKeys block position count).Nodup := by
  rw [List.nodup_append]
  refine ⟨blockKeys_nodup _ _ _ _, slotKeys_nodup _ _ _, ?_⟩
  rintro earlier member own atSlot rfl
  have low := (mem_blockKeys.mp member).2.2.1
  obtain ⟨slot, -, rfl⟩ := List.mem_map.mp atSlot
  simp at low

theorem trainedBlock2_nodup {S K M position slot : Nat} {tttValidCounts : List Nat}
    (inside : position < S) (small : slot < K) (valid : tttValidCounts.getD position 0 = M)
    (within : M ≤ K) : (trainedBlock2 S K tttValidCounts position slot).Nodup := by
  rw [trainedBlock2_eq tttValidCounts inside small valid within, List.nodup_append]
  refine ⟨upTo_nodup _ _ _ _, upTo_nodup _ _ _ _, ?_⟩
  rintro first member second other rfl
  have firstBlock : first.block = 1 := by
    rcases List.mem_append.mp member with earlier | own
    · exact (mem_blockKeys.mp earlier).1
    · exact (slotKeys_subset within first own).1
  have secondBlock : first.block = 2 := by
    rcases List.mem_append.mp other with earlier | own
    · exact (mem_blockKeys.mp earlier).1
    · exact (slotKeys_subset (show slot + 1 ≤ K by omega) first own).1
  omega

/-- A drafted position sees the keys that training shows it, none of them twice: in the first
block exactly these, in the second block all but the second block's keys of earlier
positions. -/
theorem contexts_agree (S K M position slot : Nat) (inside : position < S) (small : slot < K)
    (tttValidCounts : List Nat) (valid : tttValidCounts.getD position 0 = M)
    (within : M ≤ K) (state : DraftState) (reached : (draftSystem K).Reachable state)
    (drafted : state.fed = position + 1) :
    ((trainedBlock1 S K position slot).map Option.some).Perm (state.seen slot) ∧
      (trainedBlock1 S K position slot).Nodup ∧
      ((trainedBlock2 S K tttValidCounts position slot).map Option.some).Perm
        (state.block2Seen K M slot ++ (blockKeys 2 0 position K).map Option.some) ∧
      (trainedBlock2 S K tttValidCounts position slot).Nodup := by
  have committed := Committed.reachable reached
  have fed : 0 < state.fed := by omega
  have last : state.fed - 1 = position := by omega
  refine ⟨?_, ?_, ?_, trainedBlock2_nodup inside small valid within⟩
  · rw [committed.seen fed slot small, last, trainedBlock1_eq inside small, draftedBlock1]
  · rw [trainedBlock1_eq inside small]
    exact upTo_nodup _ _ _ _
  · rw [committed.block2Seen fed within small, last, ← List.map_append]
    exact (trainedBlock2_perm inside small valid within).map _

/-- Two positions of one slot, fed at once. -/
def twoPositions : DraftState :=
  DraftState.updateCacheAndDraft 1 2 ⟨LayerCache.reset 8, 0, [], fun _ => []⟩

theorem twoPositions_reachable : (draftSystem 1).Reachable twoPositions :=
  .step _ _ (.start _ ⟨8, rfl, rfl⟩) (.update _ 2 (by decide))

/-- Contexts at the second of two positions. -/
theorem contexts_agree_second :
    ((trainedBlock1 2 1 1 0).map Option.some).Perm (twoPositions.seen 0) ∧
      (trainedBlock1 2 1 1 0).Nodup ∧
      ((trainedBlock2 2 1 [1, 1] 1 0).map Option.some).Perm
        (twoPositions.block2Seen 1 1 0 ++ (blockKeys 2 0 1 1).map Option.some) ∧
      (trainedBlock2 2 1 [1, 1] 1 0).Nodup :=
  contexts_agree 2 1 1 1 0 (by decide) (by decide) [1, 1] rfl (by decide) twoPositions
    twoPositions_reachable rfl

/-- At the second position the training mask of the second block shows a key that inference
does not: the second block's key of the first position. -/
theorem trainedBlock2_shows_more :
    (draftSystem 1).Reachable twoPositions ∧ twoPositions.fed = 2 ∧
      ¬ ∀ key, key ∈ trainedBlock2 2 1 [1, 1] 1 0 ↔ some key ∈ twoPositions.block2Seen 1 1 0 := by
  refine ⟨twoPositions_reachable, rfl, ?_⟩
  intro same
  have extra := (same ⟨2, 0, 0⟩).mp (by decide)
  exact absurd extra (by decide)

end SpecBlock.Draft
