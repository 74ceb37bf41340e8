import SpecBlock.Draft.BatchCache
import SpecBlock.Foundation.LivePrefix

/-!
# Rows of the batched draft cache

Each row of a consistent cache is a memory with a live prefix in every layer. A ragged
forward that succeeds appends the valid slots of every row, whether it runs over all rows
or over the leading ones; a rollback drops the last block of the rows it names; compaction
moves rows.
-/

namespace SpecBlock.Draft

open Serving Batch

variable {α H : Type}

/-- One row of a layer, with its number of live cells. -/
def DraftLayer.memory (layer : DraftLayer α) (row count : Nat) : LivePrefix α :=
  ⟨fun column => layer.storage.bind (fun storage => storage row column), count⟩

/-- A layer without storage has no width, and its storage is as wide as declared. -/
structure DraftLayer.Allocated (layer : DraftLayer α) : Prop where
  unallocated : layer.storage = none → layer.width = 0
  declared : layer.storage ≠ none → layer.maxCacheLen ≤ layer.width

/-- A row of a layer holds the given values, inside its storage. -/
structure DraftLayer.RowHolds (layer : DraftLayer α) (row : Nat) (values : List α) : Prop where
  holds : (layer.memory row values.length).Holds values
  fits : values.length ≤ layer.width

namespace DraftBatchCache

/-- The device vector is the host's lengths and every layer refers to it. -/
structure Consistent (cache : DraftBatchCache α) : Prop where
  views : ∀ layer ∈ cache.layers, layer.lengths = cache.lengths
  device : cache.deviceLengths = cache.lengthsHost
  allocated : ∀ layer ∈ cache.layers, layer.Allocated

/-- A row holds the given values in every layer. -/
structure RowHolds (cache : DraftBatchCache α) (row : Nat) (values : List α) : Prop where
  counted : cache.lengthsHost[row]? = some values.length
  layers : ∀ layer ∈ cache.layers, layer.RowHolds row values

variable {cache following : DraftBatchCache α}

theorem new_consistent (numLayers batchSize maxCacheLen : Nat) :
    (new numLayers batchSize maxCacheLen : DraftBatchCache α).Consistent := by
  constructor
  · intro layer member
    rw [List.eq_of_mem_replicate member]
    rfl
  · rfl
  · intro layer member
    rw [List.eq_of_mem_replicate member]
    exact ⟨fun _ => rfl, fun some => absurd rfl some⟩

theorem new_rowHolds (numLayers batchSize maxCacheLen row : Nat) (inside : row < batchSize) :
    (new numLayers batchSize maxCacheLen : DraftBatchCache α).RowHolds row [] := by
  refine ⟨by simp [new, inside], fun layer member => ?_⟩
  rw [List.eq_of_mem_replicate member]
  exact ⟨⟨rfl, fun _ low => absurd low (Nat.not_lt_zero _)⟩, Nat.zero_le _⟩

theorem replaceLengths_consistent {contents : List Nat}
    (allocated : ∀ layer ∈ cache.layers, layer.Allocated) (same : contents = cache.lengthsHost) :
    (cache.replaceLengths contents).Consistent := by
  constructor
  · intro layer member
    obtain ⟨old, -, rfl⟩ := List.mem_map.mp member
    rfl
  · simp [deviceLengths, replaceLengths, same]
  · intro layer member
    obtain ⟨old, inOld, rfl⟩ := List.mem_map.mp member
    exact ⟨(allocated old inOld).unallocated, (allocated old inOld).declared⟩

theorem replaceLengths_rowHolds {contents : List Nat} {row : Nat} {values : List α}
    (holds : cache.RowHolds row values) : (cache.replaceLengths contents).RowHolds row values := by
  refine ⟨holds.counted, fun layer member => ?_⟩
  obtain ⟨old, inOld, rfl⟩ := List.mem_map.mp member
  exact ⟨(holds.layers old inOld).holds, (holds.layers old inOld).fits⟩

theorem uploadLengths_consistent (views : ∀ layer ∈ cache.layers, layer.lengths = cache.lengths)
    (allocated : ∀ layer ∈ cache.layers, layer.Allocated) : cache.uploadLengths.Consistent := by
  unfold uploadLengths
  split
  next empty => exact replaceLengths_consistent allocated (by rw [empty, List.take_zero])
  next some => exact ⟨views, by simp [deviceLengths], allocated⟩

theorem uploadLengths_rowHolds {row : Nat} {values : List α} (holds : cache.RowHolds row values) :
    cache.uploadLengths.RowHolds row values := by
  unfold uploadLengths
  split
  · exact replaceLengths_rowHolds holds
  · exact ⟨holds.counted, holds.layers⟩

theorem uploadLengths_host : cache.uploadLengths.lengthsHost = cache.lengthsHost := by
  unfold uploadLengths
  split <;> rfl

/-- An upload keeps the layers but for the vector they refer to. -/
theorem uploadLengths_layers :
    cache.uploadLengths.layers.map DraftLayer.maxCacheLen = cache.layers.map DraftLayer.maxCacheLen := by
  unfold uploadLengths replaceLengths
  split
  · rw [List.map_map]
    rfl
  · rfl

theorem uploadLengths_storage :
    ∀ layer ∈ cache.uploadLengths.layers, ∃ old ∈ cache.layers, layer.storage = old.storage := by
  unfold uploadLengths replaceLengths
  split
  · intro layer member
    obtain ⟨old, inOld, rfl⟩ := List.mem_map.mp member
    exact ⟨old, inOld, rfl⟩
  · exact fun layer member => ⟨layer, member, rfl⟩

end DraftBatchCache

namespace DraftLayer

variable {layer : DraftLayer α}

/-- After allocation or growth the storage is wide enough and kept its cells. -/
theorem ensureWidth_spec (allocated : layer.Allocated) (needed : Nat) :
    (layer.ensureWidth needed).Allocated ∧ (layer.ensureWidth needed).lengths = layer.lengths ∧
      (layer.ensureWidth needed).storage ≠ none ∧ needed ≤ (layer.ensureWidth needed).width ∧
      layer.width ≤ (layer.ensureWidth needed).width ∧
      ∀ row count column, column < layer.width →
        ((layer.ensureWidth needed).memory row count).cells column =
          (layer.memory row count).cells column := by
  unfold ensureWidth
  cases stored : layer.storage with
  | none =>
    have narrow := allocated.unallocated stored
    refine ⟨⟨fun empty => by simp at empty, fun _ => Nat.le_max_left _ _⟩, rfl, by simp,
      Nat.le_max_right _ _, by omega, fun row count column inside => by omega⟩
  | some storage =>
    dsimp only
    split
    next short =>
      refine ⟨⟨fun empty => by simp at empty, fun _ => Nat.le_refl _⟩, rfl, by simp,
        Nat.le_max_right _ _, ?_, ?_⟩
      · show layer.width ≤ max (layer.width * 2) needed
        omega
      · intro row count column inside
        simp [memory, stored, inside]
    next enough =>
      exact ⟨allocated, rfl, by simp [stored], by omega, Nat.le_refl _, fun _ _ _ _ => rfl⟩

theorem appendRagged_rowHolds {rows slots row : Nat} {current : Nat → Nat → α}
    {lengths validSlots : List Nat} {values : List α} (holds : layer.RowHolds row values)
    (stored : layer.storage ≠ none) (active : row < rows)
    (counted : lengths.getD row 0 = values.length) (within : validSlots.getD row 0 ≤ slots)
    (room : values.length + validSlots.getD row 0 ≤ layer.width) :
    (layer.appendRagged rows slots current lengths validSlots).RowHolds row
      (values ++ (List.range (validSlots.getD row 0)).map (current row)) := by
  obtain ⟨storage, stored⟩ := Option.ne_none_iff_exists'.mp stored
  refine ⟨⟨rfl, fun column inside => ?_⟩, by simpa [appendRagged] using room⟩
  rw [List.length_append, List.length_map, List.length_range] at inside
  simp only [memory, appendRagged, stored, Option.map_some, Option.bind_some, counted]
  by_cases early : column < values.length
  · have kept := holds.holds.stored column early
    simp only [memory, stored, Option.bind_some] at kept
    rw [if_neg (by omega), kept, List.getElem?_append_left early]
  · have place : column - values.length < validSlots.getD row 0 := by omega
    rw [if_pos (by omega), List.getElem?_append_right (by omega), List.getElem?_map,
      List.getElem?_range place, Option.map_some]

theorem appendRagged_frame {rows slots row : Nat} {current : Nat → Nat → α}
    {lengths validSlots : List Nat} {values : List α} (holds : layer.RowHolds row values)
    (outside : rows ≤ row) :
    (layer.appendRagged rows slots current lengths validSlots).RowHolds row values := by
  refine ⟨⟨rfl, fun column inside => ?_⟩, holds.fits⟩
  have kept := holds.holds.stored column inside
  unfold memory at kept ⊢
  cases stored : layer.storage with
  | none => simpa [appendRagged, stored] using kept
  | some storage =>
    simp only [stored, Option.bind_some] at kept
    simp only [appendRagged, stored, Option.map_some, Option.bind_some]
    rw [if_neg (by omega), kept]

theorem ensureWidth_rowHolds (allocated : layer.Allocated) (needed : Nat) {row : Nat}
    {values : List α} (holds : layer.RowHolds row values) :
    (layer.ensureWidth needed).RowHolds row values := by
  obtain ⟨-, -, -, -, wider, kept⟩ := ensureWidth_spec allocated needed
  refine ⟨⟨rfl, fun column inside => ?_⟩, holds.fits.trans wider⟩
  rw [kept row _ column (Nat.lt_of_lt_of_le inside holds.fits)]
  exact holds.holds.stored column inside

theorem appendRagged_allocated {rows slots : Nat} {current : Nat → Nat → α}
    {lengths validSlots : List Nat} (allocated : layer.Allocated) :
    (layer.appendRagged rows slots current lengths validSlots).Allocated := by
  constructor
  · intro empty
    exact allocated.unallocated (by simpa [appendRagged] using empty)
  · intro some
    exact allocated.declared (by simpa [appendRagged] using some)

end DraftLayer

namespace DraftBatchCache

variable {cache following : DraftBatchCache α}

theorem advance_ok {validLengths : List Nat} {K : Nat}
    (views : ∀ layer ∈ cache.layers, layer.lengths = cache.lengths)
    (allocated : ∀ layer ∈ cache.layers, layer.Allocated)
    (ran : cache.advance validLengths K = .ok following) :
    validLengths.length = cache.lengthsHost.length ∧ following.Consistent ∧
      following.lengthsHost =
        List.zipWith (fun length valid => length + valid * K) cache.lengthsHost validLengths ∧
      following.layers.map DraftLayer.maxCacheLen = cache.layers.map DraftLayer.maxCacheLen ∧
      (∀ layer ∈ following.layers, ∃ old ∈ cache.layers, layer.storage = old.storage) ∧
      ∀ row values length valid, (∀ layer ∈ cache.layers, layer.RowHolds row values) →
        cache.lengthsHost[row]? = some length → validLengths[row]? = some valid →
        values.length = length + valid * K → following.RowHolds row values := by
  unfold advance at ran
  split at ran
  · cases ran
  next matching =>
    obtain rfl := Except.ok.inj ran
    refine ⟨not_not.mp matching, uploadLengths_consistent views allocated, uploadLengths_host,
      uploadLengths_layers, uploadLengths_storage, ?_⟩
    intro row values length valid holds counted given sized
    refine uploadLengths_rowHolds ⟨?_, holds⟩
    simp [List.getElem?_zipWith, counted, given, sized]

theorem rollbackRow_ok {K row : Nat} {lengthsHost result : List Nat}
    (ran : rollbackRow K lengthsHost row = .ok result) :
    ∃ length, lengthsHost[row]? = some length ∧ K ≤ length ∧
      result = lengthsHost.set row (length - K) := by
  unfold rollbackRow at ran
  split at ran
  · cases ran
  next length read =>
    split at ran
    · cases ran
    next enough => exact ⟨length, read, by omega, (Except.ok.inj ran).symm⟩

theorem rollbackRow_total {K : Nat} {rows : List Nat} (lengthsHost : List Nat)
    (distinct : rows.Nodup)
    (drafted : ∀ row ∈ rows, ∃ length, lengthsHost[row]? = some length ∧ K ≤ length) :
    ∃ result, rows.foldlM (rollbackRow K) lengthsHost = .ok result := by
  induction rows generalizing lengthsHost with
  | nil => exact ⟨lengthsHost, rfl⟩
  | cons first rows ih =>
    obtain ⟨fresh, distinct⟩ := List.nodup_cons.mp distinct
    obtain ⟨length, read, enough⟩ := drafted first List.mem_cons_self
    have taken : rollbackRow K lengthsHost first = .ok (lengthsHost.set first (length - K)) := by
      unfold rollbackRow
      rw [read]
      exact if_neg (Nat.not_lt.mpr enough)
    rw [List.foldlM_cons, taken]
    apply ih _ distinct
    intro row member
    obtain ⟨other, atOther, enough⟩ := drafted row (List.mem_cons_of_mem _ member)
    have different : first ≠ row := fun same => fresh (same ▸ member)
    exact ⟨other, by rwa [List.getElem?_set_ne different], enough⟩

theorem rollbackRows_lengths {K : Nat} {rows lengthsHost result : List Nat}
    (distinct : rows.Nodup) (ran : rows.foldlM (rollbackRow K) lengthsHost = .ok result) :
    result.length = lengthsHost.length ∧ ∀ row,
      result[row]? = if row ∈ rows then lengthsHost[row]?.map (· - K) else lengthsHost[row]? := by
  induction rows generalizing lengthsHost with
  | nil =>
    obtain rfl := Except.ok.inj ran
    exact ⟨rfl, fun row => by simp⟩
  | cons first rows ih =>
    rw [List.foldlM_cons] at ran
    cases taken : rollbackRow K lengthsHost first with
    | error reason =>
      rw [taken] at ran
      cases ran
    | ok between =>
      rw [taken] at ran
      obtain ⟨length, read, enough, rfl⟩ := rollbackRow_ok taken
      obtain ⟨fresh, others⟩ := List.nodup_cons.mp distinct
      obtain ⟨sized, entries⟩ := ih others ran
      refine ⟨sized.trans List.length_set, fun row => ?_⟩
      rw [entries row, List.getElem?_set]
      by_cases here : row = first
      · subst here
        have inside := (List.getElem?_eq_some_iff.mp read).1
        rw [if_neg fresh, if_pos rfl, if_pos inside, if_pos List.mem_cons_self, read]
        rfl
      · rw [if_neg (Ne.symm here)]
        simp [here]

/-- A rollback that succeeds keeps the cache consistent, drops a block of the rows it names and
leaves the others. -/
theorem rollbackRows_ok {K : Nat} {rows : List Nat} (consistent : cache.Consistent)
    (distinct : rows.Nodup) (ran : cache.rollbackRows rows K = .ok following) :
    following.Consistent ∧ following.lengthsHost.length = cache.lengthsHost.length ∧
      following.layers.map DraftLayer.maxCacheLen = cache.layers.map DraftLayer.maxCacheLen ∧
      ∀ row values, cache.RowHolds row values →
        following.RowHolds row (if row ∈ rows then values.take (values.length - K) else values) := by
  unfold rollbackRows at ran
  cases taken : rows.foldlM (rollbackRow K) cache.lengthsHost with
  | error reason =>
    rw [taken] at ran
    cases ran
  | ok lengthsHost =>
    rw [taken] at ran
    obtain rfl := Except.ok.inj ran
    obtain ⟨sized, entries⟩ := rollbackRows_lengths distinct taken
    refine ⟨uploadLengths_consistent consistent.views consistent.allocated, ?_,
      uploadLengths_layers, ?_⟩
    · rw [uploadLengths_host]
      exact sized
    · intro row values holds
      have read := entries row
      rw [holds.counted] at read
      refine uploadLengths_rowHolds ⟨?_, fun layer member => ?_⟩
      · show lengthsHost[row]? = _
        rw [read]
        split
        · rw [List.length_take, Nat.min_eq_left (Nat.sub_le _ _), Option.map_some]
        · rfl
      · obtain ⟨kept, fits⟩ := holds.layers layer member
        split
        · refine ⟨⟨rfl, fun column inside => ?_⟩, ?_⟩
          · rw [List.length_take] at inside
            rw [List.getElem?_take_of_lt (by omega)]
            exact kept.stored column (by omega)
          · rw [List.length_take]
            omega
        · exact ⟨kept, fits⟩

theorem compactRows_ok {rowIndices : List Nat} (consistent : cache.Consistent)
    (inside : ∀ index ∈ rowIndices, index < cache.activeBatchSize) :
    (cache.compactRows rowIndices).Consistent ∧
      (cache.compactRows rowIndices).lengthsHost.length = rowIndices.length ∧
      (cache.compactRows rowIndices).layers.map DraftLayer.maxCacheLen =
        cache.layers.map DraftLayer.maxCacheLen ∧
      ∀ row index values, rowIndices[row]? = some index → cache.RowHolds index values →
        (cache.compactRows rowIndices).RowHolds row values := by
  unfold compactRows
  split
  next leading =>
    have bound : rowIndices.length ≤ cache.lengthsHost.length := by
      by_contra long
      have last : cache.lengthsHost.length ∈ rowIndices := by
        rw [leading, List.mem_range]
        omega
      exact absurd (inside _ last) (Nat.lt_irrefl _)
    refine ⟨replaceLengths_consistent consistent.allocated ?_, ?_, ?_, ?_⟩
    · rw [consistent.device]
    · exact List.length_take_of_le bound
    · simp [replaceLengths, Function.comp_def]
    · intro row index values listed holds
      have low : row < rowIndices.length := (List.getElem?_eq_some_iff.mp listed).1
      obtain rfl : row = index := by
        rw [leading, List.getElem?_range low] at listed
        exact Option.some.inj listed
      refine replaceLengths_rowHolds ⟨?_, holds.layers⟩
      show (cache.lengthsHost.take rowIndices.length)[row]? = _
      rw [List.getElem?_take_of_lt low, holds.counted]
  next moved =>
    refine ⟨replaceLengths_consistent ?_ ?_, ?_, ?_, ?_⟩
    · intro layer member
      obtain ⟨old, inOld, rfl⟩ := List.mem_map.mp member
      constructor
      · intro empty
        exact (consistent.allocated old inOld).unallocated (by simpa using empty)
      · intro some
        exact (consistent.allocated old inOld).declared (by simpa using some)
    · rw [consistent.device]
    · exact List.length_map _
    · simp [replaceLengths, Function.comp_def]
    · intro row index values listed holds
      have low : row < rowIndices.length := (List.getElem?_eq_some_iff.mp listed).1
      have read : rowIndices.getD row 0 = index := by
        simp [List.getD_eq_getElem?_getD, listed]
      have length : cache.lengthsHost.getD index 0 = values.length := by
        simp [List.getD_eq_getElem?_getD, holds.counted]
      have used : values.length ≤
          maximum (rowIndices.map (fun index => cache.lengthsHost.getD index 0)) := by
        apply le_maximum
        rw [← length]
        exact List.mem_map_of_mem (List.mem_of_getElem? listed)
      refine replaceLengths_rowHolds ⟨?_, fun layer member => ?_⟩
      · simp [listed, ← length]
      · obtain ⟨old, inOld, rfl⟩ := List.mem_map.mp member
        obtain ⟨kept, fits⟩ := holds.layers old inOld
        refine ⟨⟨rfl, fun column within => ?_⟩, fits⟩
        have same := kept.stored column within
        unfold DraftLayer.memory at same ⊢
        cases stored : old.storage with
        | none => simpa [stored] using same
        | some storage =>
          simp only [stored, Option.bind_some] at same
          simp only [Option.map_some, Option.bind_some]
          rw [if_pos ⟨low, by omega⟩, read, same]

end DraftBatchCache

end SpecBlock.Draft
