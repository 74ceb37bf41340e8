import SpecBlock.Draft.BatchRows

/-!
# The ragged draft forward

A forward that passes its checks appends, to each row that has valid positions, the slots of
exactly those positions, and keeps the declared capacity. Rows without valid positions keep
what they hold.
-/

namespace SpecBlock.Draft

open Serving Batch

variable {α H : Type}

theorem cacheCapacity_le {layers : List (DraftLayer α)} {layer : DraftLayer α}
    (member : layer ∈ layers) : cacheCapacity layers ≤ layer.maxCacheLen := by
  have listed : layer.maxCacheLen ∈ layers.map DraftLayer.maxCacheLen := List.mem_map_of_mem member
  unfold cacheCapacity
  cases smallest : (layers.map DraftLayer.maxCacheLen).min? with
  | none =>
    rw [List.min?_eq_none_iff.mp smallest] at listed
    simp at listed
  | some size => exact (List.min?_eq_some_iff.mp smallest).2 _ listed

/-- The views a forward gets of a consistent cache: every layer, read with the host's lengths. -/
theorem DraftBatchCache.prefixLayers_ok {cache : DraftBatchCache α} {rowCount : Nat}
    {views : List (DraftLayer α × List Nat)} (consistent : cache.Consistent)
    (ran : cache.prefixLayers rowCount = .ok views) :
    views = cache.layers.map (fun layer => (layer, cache.lengthsHost.take rowCount)) ∧
      rowCount ≤ cache.activeBatchSize ∧
      (rowCount ≠ cache.activeBatchSize → ∀ layer ∈ cache.layers, layer.storage ≠ none) := by
  unfold prefixLayers at ran
  split at ran
  · cases ran
  next inRange =>
    split at ran
    next whole =>
      obtain rfl := Except.ok.inj ran
      refine ⟨?_, by omega, fun strict => absurd whole strict⟩
      apply List.map_congr_left
      intro layer member
      have device := consistent.device
      rw [deviceLengths, ← consistent.views layer member] at device
      rw [device, whole, activeBatchSize, List.take_length]
    next strict =>
      split at ran
      · cases ran
      next allocated =>
        obtain rfl := Except.ok.inj ran
        refine ⟨by rw [consistent.device], by omega, fun _ layer member empty => allocated ?_⟩
        exact List.any_eq_true.mpr ⟨layer, member, by simp [empty]⟩

namespace DraftLayer

variable {layer : DraftLayer α} {rows slots maxTotalSlots row : Nat} {current : Nat → Nat → α}
  {lengths validSlots : List Nat} {values : List α}

theorem forwardBatchRagged_rowHolds (allocated : layer.Allocated) (holds : layer.RowHolds row values)
    (active : row < rows) (counted : lengths.getD row 0 = values.length)
    (within : validSlots.getD row 0 ≤ slots)
    (room : values.length + validSlots.getD row 0 ≤ maxTotalSlots) :
    (layer.forwardBatchRagged rows slots current lengths validSlots maxTotalSlots).RowHolds row
      (values ++ (List.range (validSlots.getD row 0)).map (current row)) := by
  obtain ⟨-, -, stored, wide, -, -⟩ := ensureWidth_spec allocated maxTotalSlots
  exact appendRagged_rowHolds (ensureWidth_rowHolds allocated maxTotalSlots holds) stored active
    counted within (room.trans wide)

/-- A forward over the leading rows appends a row's valid slots, where the storage is there. -/
theorem forwardPrefix_rowHolds (stored : layer.storage ≠ none) (wide : maxTotalSlots ≤ layer.width)
    (holds : layer.RowHolds row values) (active : row < rows)
    (counted : lengths.getD row 0 = values.length) (within : validSlots.getD row 0 ≤ slots)
    (room : values.length + validSlots.getD row 0 ≤ maxTotalSlots) :
    (layer.forwardPrefix rows slots current lengths validSlots maxTotalSlots).RowHolds row
      (values ++ (List.range (validSlots.getD row 0)).map (current row)) := by
  unfold forwardPrefix
  rw [if_neg (Nat.not_lt.mpr wide)]
  exact appendRagged_rowHolds holds stored active counted within (room.trans wide)

/-- A forward over all rows keeps the allocation, the length vector and, within the declared
capacity, the declaration. -/
theorem forwardBatchRagged_kept (allocated : layer.Allocated)
    (capacity : maxTotalSlots ≤ layer.maxCacheLen) :
    (layer.forwardBatchRagged rows slots current lengths validSlots maxTotalSlots).Allocated ∧
      (layer.forwardBatchRagged rows slots current lengths validSlots maxTotalSlots).lengths =
        layer.lengths ∧
      (layer.forwardBatchRagged rows slots current lengths validSlots maxTotalSlots).maxCacheLen =
        layer.maxCacheLen ∧
      (layer.forwardBatchRagged rows slots current lengths validSlots maxTotalSlots).storage ≠
        none := by
  obtain ⟨widened, same, stored, -, -, -⟩ := ensureWidth_spec allocated maxTotalSlots
  refine ⟨appendRagged_allocated widened, same, ?_, by simpa [forwardBatchRagged, appendRagged]⟩
  show (layer.ensureWidth maxTotalSlots).maxCacheLen = layer.maxCacheLen
  unfold ensureWidth
  cases storage : layer.storage with
  | none => rfl
  | some cells =>
    have declared := allocated.declared (by simp [storage])
    dsimp only
    rw [if_neg (by omega)]

/-- A forward over the leading rows keeps the allocation, the length vector and the declaration. -/
theorem forwardPrefix_kept (allocated : layer.Allocated) (stored : layer.storage ≠ none) :
    (layer.forwardPrefix rows slots current lengths validSlots maxTotalSlots).Allocated ∧
      (layer.forwardPrefix rows slots current lengths validSlots maxTotalSlots).lengths =
        layer.lengths ∧
      (layer.forwardPrefix rows slots current lengths validSlots maxTotalSlots).maxCacheLen =
        layer.maxCacheLen ∧
      (layer.forwardPrefix rows slots current lengths validSlots maxTotalSlots).storage ≠ none := by
  unfold forwardPrefix
  split
  · exact ⟨allocated, rfl, rfl, stored⟩
  · exact ⟨appendRagged_allocated allocated, rfl, rfl, by simpa [appendRagged]⟩

end DraftLayer

/-- What a ragged forward did to a cache: each row got the slots of its valid positions. -/
structure RaggedForward (K : Nat) (hiddenBatch : Nat → Nat → H) (tokenBatch : Nat → Nat → Nat)
    (startPositions validLengths : List Nat) (cache following : DraftBatchCache (CrossSlot H)) :
    Prop where
  consistent : following.Consistent
  lengths : following.lengthsHost =
    List.zipWith (fun length valid => length + valid * K) cache.lengthsHost validLengths
  declared : following.layers.map DraftLayer.maxCacheLen = cache.layers.map DraftLayer.maxCacheLen
  stored : ∀ layer ∈ following.layers, layer.storage ≠ none
  rows : ∀ row values, cache.RowHolds row values → following.RowHolds row
    (values ++ (List.range (validLengths.getD row 0 * K)).map
      (raggedSlots K hiddenBatch tokenBatch startPositions row))

/-- What the checks of a ragged forward leave true. -/
structure RaggedChecked (K : Nat) (cache : DraftBatchCache α) (validLengths : List Nat) :
    Prop where
  nonempty : validLengths ≠ []
  positive : maximum validLengths ≠ 0
  leading : ∀ valid ∈ validLengths.take (activeCount validLengths), valid ≠ 0
  suffix : ∀ valid ∈ validLengths.drop (activeCount validLengths), valid = 0
  layered : cache.layers ≠ []
  capacity : maxTotalSlots K cache.lengthsHost validLengths ≤ cacheCapacity cache.layers

/-- The checks pass when inputs match and what they check is true. -/
theorem checkRagged_ok {texts : RaggedTexts} {K : Nat} {cache : DraftBatchCache α}
    {matching : Bool} {validLengths : List Nat} :
    checkRagged texts K cache matching validLengths = .ok () ↔
      matching = true ∧ RaggedChecked K cache validLengths := by
  unfold checkRagged
  constructor
  · intro ran
    split at ran
    · cases ran
    next inputs =>
      split at ran
      · cases ran
      next nonempty =>
        split at ran
        · cases ran
        next positive =>
          split at ran
          · cases ran
          next contiguous =>
            split at ran
            · cases ran
            next layered =>
              split at ran
              · cases ran
              next capacity =>
                obtain ⟨leading, suffix⟩ := not_or.mp contiguous
                refine ⟨by simpa using inputs, nonempty, positive, ?_, ?_, layered,
                  Nat.le_of_not_lt capacity⟩
                · intro valid member zero
                  exact leading (List.any_eq_true.mpr ⟨valid, member, by simpa using zero⟩)
                · intro valid member
                  by_contra some
                  exact suffix (List.any_eq_true.mpr
                    ⟨valid, member, by simpa using Nat.pos_of_ne_zero some⟩)
  · rintro ⟨inputs, nonempty, positive, leading, suffix, layered, capacity⟩
    rw [if_neg (by simp [inputs]), if_neg nonempty, if_neg positive, if_neg, if_neg layered,
      if_neg (Nat.not_lt.mpr capacity)]
    rintro (zero | some)
    · obtain ⟨valid, member, zero⟩ := List.any_eq_true.mp zero
      exact leading valid member (by simpa using zero)
    · obtain ⟨valid, member, some⟩ := List.any_eq_true.mp some
      have zero := suffix valid member
      simp [zero] at some

section forward

variable {K : Nat} {cache following : DraftBatchCache (CrossSlot H)}
  {hiddenBatch : Nat → Nat → H} {tokenBatch : Nat → Nat → Nat}
  {startPositions validLengths : List Nat}

theorem RaggedChecked.inactive (checked : RaggedChecked K cache validLengths) {row : Nat}
    (behind : activeCount validLengths ≤ row) : validLengths.getD row 0 = 0 := by
  by_cases inside : row < validLengths.length
  · have read : validLengths.getD row 0 = validLengths[row] := by simp [inside]
    rw [read]
    apply checked.suffix
    rw [List.mem_iff_getElem]
    refine ⟨row - activeCount validLengths, by rw [List.length_drop]; omega, ?_⟩
    rw [List.getElem_drop]
    congr 1
    omega
  · simp [List.getElem?_eq_none (Nat.le_of_not_lt inside)]

theorem RaggedChecked.room {row : Nat} {values : List α} {valid : Nat}
    (read : validLengths[row]? = some valid) (active : row < activeCount validLengths)
    {lengthsHost : List Nat} (counted : lengthsHost[row]? = some values.length) :
    values.length + valid * K ≤ maxTotalSlots K lengthsHost validLengths := by
  apply le_maximum
  rw [List.mem_iff_getElem?]
  refine ⟨row, ?_⟩
  rw [List.getElem?_zipWith, List.getElem?_take_of_lt active, List.getElem?_take_of_lt active,
    counted, read]

/-- No row is fuller after a forward than any bound on all of them. -/
theorem maxTotalSlots_le {bound : Nat} {lengthsHost : List Nat}
    (bounded : ∀ row count valid : Nat, lengthsHost[row]? = some count →
      validLengths[row]? = some valid →
      count + valid * K ≤ bound) :
    maxTotalSlots K lengthsHost validLengths ≤ bound := by
  apply maximum_le
  intro size member
  obtain ⟨row, read⟩ := List.getElem?_of_mem member
  rw [List.getElem?_zipWith] at read
  split at read
  next count valid atCount atValid =>
    rw [List.getElem?_take] at atCount atValid
    split at atCount
    next active =>
      rw [if_pos active] at atValid
      exact (Option.some.inj read) ▸ bounded row count valid atCount atValid
    next => cases atCount
  next => cases read

/-- What a ragged forward leaves in one layer. -/
def raggedLayer (whole : Bool) (K : Nat) (current : Nat → Nat → α)
    (lengthsHost validLengths : List Nat) (layer : DraftLayer α) : DraftLayer α :=
  layer.forward whole (activeCount validLengths) (maximum validLengths * K) current
    (lengthsHost.take (activeCount validLengths))
    ((validLengths.take (activeCount validLengths)).map (· * K))
    (maxTotalSlots K lengthsHost validLengths)

section layer

variable {whole : Bool} {layer : DraftLayer α} {current : Nat → Nat → α} {lengthsHost : List Nat}

/-- A ragged forward keeps a layer's allocation, vector and declaration. -/
theorem raggedLayer_kept (current : Nat → Nat → α) (allocated : layer.Allocated)
    (capacity : maxTotalSlots K lengthsHost validLengths ≤ layer.maxCacheLen)
    (sliced : whole = false → layer.storage ≠ none) :
    let result := raggedLayer whole K current lengthsHost validLengths layer
    result.Allocated ∧ result.lengths = layer.lengths ∧
      result.maxCacheLen = layer.maxCacheLen ∧ result.storage ≠ none := by
  cases whole with
  | true => exact DraftLayer.forwardBatchRagged_kept allocated capacity
  | false => exact DraftLayer.forwardPrefix_kept allocated (sliced rfl)

theorem raggedLayer_active {row valid : Nat} {values : List α} (allocated : layer.Allocated)
    (capacity : maxTotalSlots K lengthsHost validLengths ≤ layer.maxCacheLen)
    (sliced : whole = false → layer.storage ≠ none) (holds : layer.RowHolds row values)
    (counted : lengthsHost[row]? = some values.length) (read : validLengths[row]? = some valid)
    (active : row < activeCount validLengths) :
    (raggedLayer whole K current lengthsHost validLengths layer).RowHolds row
      (values ++ (List.range (valid * K)).map (current row)) := by
  have length : (lengthsHost.take (activeCount validLengths)).getD row 0 = values.length := by
    simp [List.getD_eq_getElem?_getD, List.getElem?_take_of_lt active, counted]
  have slots : ((validLengths.take (activeCount validLengths)).map (· * K)).getD row 0 =
      valid * K := by
    simp [List.getD_eq_getElem?_getD, List.getElem?_take_of_lt active, read]
  have within : valid * K ≤ maximum validLengths * K :=
    Nat.mul_le_mul_right K (le_maximum _ _ (List.mem_of_getElem? read))
  have room := RaggedChecked.room (K := K) read active counted
  rw [← slots] at within room ⊢
  cases whole with
  | true =>
    exact DraftLayer.forwardBatchRagged_rowHolds allocated holds active length within room
  | false =>
    have wide := capacity.trans (allocated.declared (sliced rfl))
    exact DraftLayer.forwardPrefix_rowHolds (sliced rfl) wide holds active length within room

theorem raggedLayer_inactive {row : Nat} {values : List α} (allocated : layer.Allocated)
    (holds : layer.RowHolds row values) (inactive : activeCount validLengths ≤ row) :
    (raggedLayer whole K current lengthsHost validLengths layer).RowHolds row values := by
  cases whole with
  | true =>
    exact DraftLayer.appendRagged_frame (DraftLayer.ensureWidth_rowHolds allocated _ holds) inactive
  | false =>
    show (DraftLayer.forwardPrefix _ _ _ _ _ _ layer).RowHolds row values
    unfold DraftLayer.forwardPrefix
    split
    · exact holds
    · exact DraftLayer.appendRagged_frame holds inactive

end layer

/-- Views of leading rows are there when all rows are meant or the storage is. -/
theorem DraftBatchCache.prefixLayers_total {rowCount : Nat} (some : rowCount ≠ 0)
    (inside : rowCount ≤ cache.activeBatchSize)
    (sliced : rowCount ≠ cache.activeBatchSize → ∀ layer ∈ cache.layers, layer.storage ≠ none) :
    ∃ views, cache.prefixLayers rowCount = .ok views := by
  unfold prefixLayers
  rw [if_neg (by omega)]
  split
  next => exact ⟨_, rfl⟩
  next strict =>
    rw [if_neg]
    · exact ⟨_, rfl⟩
    · intro missing
      obtain ⟨layer, member, empty⟩ := List.any_eq_true.mp missing
      exact sliced strict layer member (by simpa using empty)

theorem DraftBatchCache.advance_total {cache : DraftBatchCache α}
    (sized : validLengths.length = cache.activeBatchSize) :
    ∃ following, cache.advance validLengths K = .ok following :=
  ⟨_, if_neg (not_not.mpr sized)⟩

theorem activeCount_le (validLengths : List Nat) : activeCount validLengths ≤ validLengths.length :=
  List.countP_le_length

theorem raggedForward_total (texts : RaggedTexts) (hiddenBatch : Nat → Nat → H)
    (tokenBatch : Nat → Nat → Nat) (startPositions : List Nat) {matching : Bool}
    (inputs : matching = true) (sized : validLengths.length = cache.activeBatchSize)
    (checked : RaggedChecked K cache validLengths)
    (sliced : activeCount validLengths ≠ cache.activeBatchSize →
      ∀ layer ∈ cache.layers, layer.storage ≠ none) :
    ∃ following, raggedForward texts K cache matching hiddenBatch tokenBatch startPositions
      validLengths = .ok following := by
  have active : activeCount validLengths ≠ 0 := by
    intro none
    have zeros := List.countP_eq_zero.mp none
    have largest := (maximum_spec validLengths checked.nonempty).1
    exact checked.positive (by simpa using zeros _ largest)
  obtain ⟨views, viewed⟩ := DraftBatchCache.prefixLayers_total active
    (sized ▸ activeCount_le validLengths) sliced
  unfold raggedForward
  rw [checkRagged_ok.mpr ⟨inputs, checked⟩]
  simp only [bind, Except.bind, viewed]
  exact DraftBatchCache.advance_total sized

/-- A ragged forward that ran had a view of every layer, with the host's lengths. -/
theorem raggedForward_views {texts : RaggedTexts} {matching : Bool} (consistent : cache.Consistent)
    (ran : raggedForward texts K cache matching hiddenBatch tokenBatch startPositions validLengths =
      .ok following) :
    cache.prefixLayers (activeCount validLengths) = .ok (cache.layers.map (fun layer =>
      (layer, cache.lengthsHost.take (activeCount validLengths)))) := by
  unfold raggedForward at ran
  cases checks : checkRagged texts K cache matching validLengths with
  | error reason =>
    rw [checks] at ran
    cases ran
  | ok done =>
    rw [checks] at ran
    cases viewed : cache.prefixLayers (activeCount validLengths) with
    | error reason =>
      simp only [viewed, bind, Except.bind] at ran
      cases ran
    | ok views => rw [(DraftBatchCache.prefixLayers_ok consistent viewed).1]

theorem DraftLayer.appendRagged_congr {rows slots : Nat} {current other : Nat → Nat → α}
    {lengths validSlots : List Nat} (layer : DraftLayer α)
    (agree : ∀ row index, index < validSlots.getD row 0 → current row index = other row index) :
    layer.appendRagged rows slots current lengths validSlots =
      layer.appendRagged rows slots other lengths validSlots := by
  unfold appendRagged
  congr 2
  funext storage row column
  dsimp only
  split
  next written => rw [agree row _ written.2.2.2.1]
  next => rfl

/-- A ragged forward reads hidden rows at valid positions only. -/
theorem raggedForward_congr {texts : RaggedTexts} {matching : Bool} {other : Nat → Nat → H}
    (agree : ∀ row column, column < validLengths.getD row 0 →
      hiddenBatch row column = other row column) :
    raggedForward texts K cache matching hiddenBatch tokenBatch startPositions validLengths =
      raggedForward texts K cache matching other tokenBatch startPositions validLengths := by
  have slots : ∀ row index, index < ((validLengths.take (activeCount validLengths)).map
      (· * K)).getD row 0 → raggedSlots K hiddenBatch tokenBatch startPositions row index =
        raggedSlots K other tokenBatch startPositions row index := by
    intro row index inside
    rw [List.getD_eq_getElem?_getD, List.getElem?_map, List.getElem?_take] at inside
    unfold raggedSlots
    rw [agree]
    split at inside
    · rw [List.getD_eq_getElem?_getD]
      cases read : validLengths[row]? with
      | none => simp [read] at inside
      | some valid =>
        rw [read] at inside
        exact Nat.div_lt_of_lt_mul (by rw [Nat.mul_comm]; exact inside)
    · simp at inside
  have layers : ∀ (whole : Bool) (lengths : List Nat) (layer : DraftLayer (CrossSlot H)),
      layer.forward whole (activeCount validLengths) (maximum validLengths * K)
        (raggedSlots K hiddenBatch tokenBatch startPositions) lengths
        ((validLengths.take (activeCount validLengths)).map (· * K))
        (maxTotalSlots K cache.lengthsHost validLengths) =
      layer.forward whole (activeCount validLengths) (maximum validLengths * K)
        (raggedSlots K other tokenBatch startPositions) lengths
        ((validLengths.take (activeCount validLengths)).map (· * K))
        (maxTotalSlots K cache.lengthsHost validLengths) := by
    intro whole lengths layer
    cases whole with
    | true => exact DraftLayer.appendRagged_congr _ slots
    | false =>
      show (if _ then _ else _) = (if _ then _ else _)
      rw [DraftLayer.appendRagged_congr layer slots]
  unfold raggedForward
  simp only [layers]

/-- A ragged forward that passes its checks appends the slots of the valid positions. -/
theorem raggedForward_ok {texts : RaggedTexts} {matching : Bool} (consistent : cache.Consistent)
    (ran : raggedForward texts K cache matching hiddenBatch tokenBatch startPositions validLengths =
      .ok following) :
    RaggedForward K hiddenBatch tokenBatch startPositions validLengths cache following := by
  unfold raggedForward at ran
  cases checks : checkRagged texts K cache matching validLengths with
  | error reason =>
    rw [checks] at ran
    cases ran
  | ok done =>
    obtain ⟨-, checked⟩ := checkRagged_ok.mp checks
    rw [checks] at ran
    cases viewed : cache.prefixLayers (activeCount validLengths) with
    | error reason =>
      simp only [viewed, bind, Except.bind] at ran
      cases ran
    | ok views =>
      obtain ⟨rfl, within, sliced⟩ := DraftBatchCache.prefixLayers_ok consistent viewed
      simp only [viewed, bind, Except.bind, List.map_map] at ran
      generalize wholeEq : decide (activeCount validLengths = cache.activeBatchSize) = whole at ran
      have advanced : DraftBatchCache.advance validLengths K { cache with
          layers := cache.layers.map (raggedLayer whole K
            (raggedSlots K hiddenBatch tokenBatch startPositions) cache.lengthsHost validLengths) } =
          .ok following := ran
      have capacity : ∀ layer ∈ cache.layers,
          maxTotalSlots K cache.lengthsHost validLengths ≤ layer.maxCacheLen :=
        fun layer member => checked.capacity.trans (cacheCapacity_le member)
      have slicedLayer : ∀ layer ∈ cache.layers, whole = false → layer.storage ≠ none := by
        intro layer member part
        subst part
        exact sliced (of_decide_eq_false wholeEq) layer member
      have kept := fun layer (member : layer ∈ cache.layers) =>
        raggedLayer_kept (raggedSlots K hiddenBatch tokenBatch startPositions)
          (consistent.allocated layer member) (capacity layer member) (slicedLayer layer member)
      obtain ⟨sized, settled, lengths, declared, storages, rows⟩ := DraftBatchCache.advance_ok
        (by
          intro layer member
          obtain ⟨old, inOld, rfl⟩ := List.mem_map.mp member
          exact (kept old inOld).2.1.trans (consistent.views old inOld))
        (by
          intro layer member
          obtain ⟨old, inOld, rfl⟩ := List.mem_map.mp member
          exact (kept old inOld).1) advanced
      refine ⟨settled, lengths, ?_, ?_, ?_⟩
      · rw [declared, List.map_map]
        exact List.map_congr_left (fun layer member => (kept layer member).2.2.1)
      · intro layer member
        obtain ⟨old, inOld, same⟩ := storages layer member
        obtain ⟨before, inBefore, rfl⟩ := List.mem_map.mp inOld
        rw [same]
        exact (kept before inBefore).2.2.2
      · intro row values holds
        have inside : row < validLengths.length := by
          rw [sized]
          exact (List.getElem?_eq_some_iff.mp holds.counted).1
        have read := List.getElem?_eq_getElem inside
        have valid : validLengths.getD row 0 = validLengths[row] := by simp [inside]
        rw [valid]
        refine rows row _ values.length validLengths[row] ?_ holds.counted read (by simp)
        intro layer member
        obtain ⟨old, inOld, rfl⟩ := List.mem_map.mp member
        by_cases active : row < activeCount validLengths
        · exact raggedLayer_active (consistent.allocated old inOld) (capacity old inOld)
            (slicedLayer old inOld) (holds.layers old inOld) holds.counted read active
        · have none : validLengths[row] = 0 :=
            valid.symm.trans (checked.inactive (Nat.le_of_not_lt active))
          rw [none]
          simpa using raggedLayer_inactive (consistent.allocated old inOld)
            (holds.layers old inOld) (Nat.le_of_not_lt active)

end forward

end SpecBlock.Draft
