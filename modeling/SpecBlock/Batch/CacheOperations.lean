import Mathlib.Data.List.Nodup
import SpecBlock.Batch.TargetCache

/-!
# What the cache operations keep

Each operation of the dense target cache is described by what it does to the
leading columns of a row: staging keeps every row's own prefix, a layer's write
keeps the prefixes it was prepared for and stores the staged entries, a commit
appends staged entries to a prefix, and compaction moves a prefix to its new row.
-/

namespace SpecBlock.Batch

variable {E : Type} [Zero E]

/-- The leading columns of a row hold the expected entries, in every layer. -/
def Holds (cache : DenseTargetCache E) (row width : Nat) (expected : Nat → Nat → E) : Prop :=
  ∀ index layer, cache.layers[index]? = some layer →
    ∀ column < width, layer.entry row column = some (expected index column)

/-- A layer's next write leaves the leading columns of a row alone. -/
def Plan.Protects (plan : Plan) (row width : Nat) : Prop :=
  width ≤ plan.writeStart ∧ (plan.gapCleared = false →
    match plan.gapMask with
    | none => width ≤ plan.committedWidth
    | some mask => ∀ column, plan.gapStart ≤ column → column < width →
        (mask.getD row []).getD (column - plan.gapStart) false = false)

theorem Plan.clear_frame (plan : Plan) (batch row width column : Nat) (storage : Storage E)
    (protects : plan.Protects row width) (below : column < width) :
    plan.clear batch storage row column = storage row column := by
  unfold clear
  split
  next => rfl
  next uncleared =>
    have kept := protects.2 (by simpa using uncleared)
    cases masked : plan.gapMask with
    | none =>
      simp only [masked] at kept ⊢
      split
      · exact clearGap_frame _ _ _ _ _ _ _ (fun lower _ => by omega)
      · rfl
    | some mask =>
      simp only [masked] at kept ⊢
      exact clearGap_frame _ _ _ _ _ _ _ (fun lower _ => kept column lower below)

namespace Layer

theorem lazyInitialization_entry (batch : Nat) (layer : Layer E) (row column : Nat) (value : E)
    (held : layer.entry row column = some value) :
    (layer.lazyInitialization batch).entry row column = some value := by
  cases shape : layer.storage with
  | none => simp [entry, shape] at held
  | some storage => simpa [lazyInitialization, shape] using held

theorem lazyInitialization_plan (batch : Nat) (layer : Layer E) :
    (layer.lazyInitialization batch).plan = layer.plan ∧
      (layer.lazyInitialization batch).maxCacheLen = layer.maxCacheLen := by
  unfold lazyInitialization
  split <;> exact ⟨rfl, rfl⟩

theorem lazyInitialization_storage (batch : Nat) (layer : Layer E) :
    (layer.lazyInitialization batch).storage.isSome := by
  cases shape : layer.storage <;> simp [lazyInitialization, shape]

theorem lazyInitialization_rows (batch : Nat) (layer : Layer E)
    (enough : batch ≤ layer.maxBatchSize) :
    batch ≤ (layer.lazyInitialization batch).maxBatchSize := by
  unfold lazyInitialization
  split
  · exact enough
  · exact Nat.le_refl batch

/-- A successful update writes inside the layer and keeps its shape. -/
theorem update_shape {batch queryLen cachePositions : Nat} {states : Storage E}
    {layer updated : Layer E}
    (result : layer.update batch queryLen cachePositions states = .ok updated) :
    updated.plan = layer.plan ∧ updated.maxCacheLen = layer.maxCacheLen ∧
      updated.maxBatchSize = layer.maxBatchSize ∧ batch ≤ layer.maxBatchSize := by
  simp only [update] at result
  split at result
  · cases result
  · split at result
    · cases result
    · split at result
      · cases result
      · split at result
        · cases result
        · obtain rfl := Except.ok.inj result
          exact ⟨rfl, rfl, rfl, by omega⟩

/-- A successful update keeps what the plan protects and stores every token. -/
theorem update_entry {batch queryLen cachePositions : Nat} {states : Storage E}
    {layer updated : Layer E} {row : Nat}
    (result : layer.update batch queryLen cachePositions states = .ok updated) :
    (∀ width, layer.plan.Protects row width → ∀ column < width, ∀ value,
        layer.entry row column = some value → updated.entry row column = some value) ∧
      (layer.storage.isSome → row < batch → ∀ token < queryLen,
        updated.entry row (layer.plan.writeStart + token) = some (states row token)) := by
  simp only [update] at result
  split at result
  · cases result
  split at result
  · cases result
  split at result
  · cases result
  split at result
  · cases result
  obtain rfl := Except.ok.inj result
  refine ⟨?_, ?_⟩
  · intro width protects column below value held
    obtain ⟨storage, allocated, rfl⟩ := Option.map_eq_some_iff.mp held
    have before : column < layer.plan.writeStart := Nat.lt_of_lt_of_le below protects.1
    simp only [entry, allocated, Option.map_some, Option.some_inj]
    rw [writeStates_frame _ _ _ _ _ _ _ before]
    exact Plan.clear_frame _ _ _ _ _ _ protects below
  · intro allocated active token written
    obtain ⟨storage, shape⟩ := Option.isSome_iff_exists.mp allocated
    simp only [entry, shape, Option.map_some, Option.some_inj]
    exact writeStates_written _ _ _ _ _ _ _ active written

end Layer

namespace DenseTargetCache

/-- A column of a row's own prefix behind the gap's start is masked out of the gap. -/
theorem gapMask_prefix (prefixLengths : List Nat) (treeStart row length column : Nat)
    (listed : prefixLengths[row]? = some length) (lower : gapStart prefixLengths ≤ column)
    (below : column < length) :
    ∃ mask, gapMask prefixLengths treeStart = some mask ∧
      (mask.getD row []).getD (column - gapStart prefixLengths) false = false := by
  have longest := le_maximum prefixLengths length (List.mem_of_getElem? listed)
  have ragged : gapStart prefixLengths ≠ maximum prefixLengths := by omega
  refine ⟨raggedMask (gapStart prefixLengths) treeStart prefixLengths, if_pos ragged, ?_⟩
  simp only [raggedMask, List.getD_eq_getElem?_getD, List.getElem?_map, listed,
    Option.map_some, Option.getD_some]
  by_cases inRange : column - gapStart prefixLengths < treeStart - gapStart prefixLengths
  · simp only [List.getElem?_range inRange, Option.map_some, Option.getD_some,
      decide_eq_false_iff_not]
    omega
  · rw [List.getElem?_eq_none (by simpa using inRange)]
    rfl

/-- Growing keeps the preserved columns, the plan and the rows of each layer. -/
theorem grow_layer (capacity preserveWidth : Nat) (cache : DenseTargetCache E) (index : Nat)
    (grown : Layer E) (read : (cache.grow capacity preserveWidth).layers[index]? = some grown) :
    ∃ layer, cache.layers[index]? = some layer ∧ grown.maxBatchSize = layer.maxBatchSize ∧
      capacity ≤ grown.maxCacheLen ∧ grown.storage.isSome = layer.storage.isSome ∧
      ∀ row, ∀ column < preserveWidth, grown.entry row column = layer.entry row column := by
  rw [grow, List.getElem?_map] at read
  obtain ⟨layer, atIndex, rfl⟩ := Option.map_eq_some_iff.mp read
  have kept : ∀ row, ∀ column < preserveWidth,
      (layer.storage.map (keepPrefix preserveWidth)).map (fun storage => storage row column) =
        layer.entry row column := by
    intro row column below
    cases shape : layer.storage with
    | none => simp [Layer.entry, shape]
    | some storage => simp [Layer.entry, shape, keepPrefix, below]
  refine ⟨layer, atIndex, ?_⟩
  split
  · exact ⟨rfl, Nat.le_refl _, Option.isSome_map, kept⟩
  · unfold Layer.resize
    split
    · next enough => exact ⟨rfl, enough, rfl, fun _ _ _ => rfl⟩
    · exact ⟨rfl, Nat.le_refl _, Option.isSome_map, kept⟩

omit [Zero E] in
theorem syncLayerState_layer (writeStart start : Nat) (mask : Option (List (List Bool)))
    (cache : DenseTargetCache E) (index : Nat) (synced : Layer E)
    (read : (cache.syncLayerState writeStart start mask).layers[index]? = some synced) :
    ∃ layer, cache.layers[index]? = some layer ∧ synced = { layer with
      plan := ⟨cache.attentionWidth, cache.committedWidth, writeStart, start, mask, false⟩ } := by
  rw [syncLayerState, List.getElem?_map] at read
  obtain ⟨layer, atIndex, rfl⟩ := Option.map_eq_some_iff.mp read
  exact ⟨layer, atIndex, rfl⟩

/-- Clearing the shared gap keeps a layer's shape and the columns outside it. -/
theorem clearShared_layer (start : Nat) (mask : Option (List (List Bool)))
    (cache : DenseTargetCache E) (index : Nat) (cleared : Layer E)
    (read : (cache.clearShared start mask).layers[index]? = some cleared) :
    ∃ layer done, cache.layers[index]? = some layer ∧
      cleared.maxBatchSize = layer.maxBatchSize ∧ cleared.maxCacheLen = layer.maxCacheLen ∧
      cleared.plan = { layer.plan with gapCleared := done } ∧
      cleared.storage.isSome = layer.storage.isSome ∧
      ∀ row column, (start ≤ column → column < cache.treeStart →
          mask.elim true (fun mask => (mask.getD row []).getD (column - start) false) = false) →
        cleared.entry row column = layer.entry row column := by
  unfold clearShared at read
  split at read
  · rw [List.getElem?_map] at read
    obtain ⟨layer, atIndex, rfl⟩ := Option.map_eq_some_iff.mp read
    refine ⟨layer, true, atIndex, rfl, rfl, rfl, Option.isSome_map, fun row column outside => ?_⟩
    cases shape : layer.storage with
    | none => simp [Layer.entry, shape]
    | some storage =>
      simp only [Layer.entry, shape, Option.map_some, Option.some_inj]
      exact clearGap_frame _ _ _ _ _ _ _ outside
  · exact ⟨cleared, cleared.plan.gapCleared, read, rfl, rfl, rfl, rfl, fun _ _ _ => rfl⟩

theorem placeTree_fields (treeWidth commitReserve : Nat) (prefixLengths : List Nat)
    (cache : DenseTargetCache E) :
    let placed := cache.placeTree treeWidth prefixLengths commitReserve
    placed.activeBatchSize = cache.activeBatchSize ∧
      placed.committedCapacity = cache.committedCapacity ∧
      placed.committedWidth = maximum prefixLengths ∧
      placed.treeStart = maximum prefixLengths + commitReserve ∧
      placed.treeWidth = treeWidth ∧ placed.commitReserve = commitReserve ∧
      placed.layers.length = cache.layers.length ∧
      placed.sharedStorage = cache.sharedStorage ∧
      placed.capacity =
        (if cache.capacity < maximum prefixLengths + commitReserve + treeWidth then
          max (maximum prefixLengths + commitReserve + treeWidth)
            (cache.committedCapacity + 2 * max cache.maxTreeWidth treeWidth)
        else cache.capacity) := by
  intro placed
  simp only [placed, placeTree, clearShared, syncLayerState]
  split <;> split <;> simp [grow]

/-- What staging makes of a layer: it keeps every row's own prefix, its next write will keep it too,
and a layer as long as the cache stays as long. -/
theorem placeTree_keeps (treeWidth commitReserve : Nat) (prefixLengths : List Nat)
    (cache : DenseTargetCache E) (index : Nat) (placed : Layer E)
    (read : (cache.placeTree treeWidth prefixLengths commitReserve).layers[index]? = some placed) :
    ∃ layer, cache.layers[index]? = some layer ∧ placed.maxBatchSize = layer.maxBatchSize ∧
      (cache.capacity ≤ layer.maxCacheLen →
        (cache.placeTree treeWidth prefixLengths commitReserve).capacity ≤ placed.maxCacheLen) ∧
      placed.storage.isSome = layer.storage.isSome ∧
      placed.plan.writeStart = maximum prefixLengths + commitReserve ∧
      ∀ row length, prefixLengths[row]? = some length →
        placed.plan.Protects row length ∧
        ∀ column < length, placed.entry row column = layer.entry row column := by
  obtain ⟨synced, done, atSynced, rows, length, plan, allocated, outside⟩ :=
    clearShared_layer _ _ _ index placed read
  obtain ⟨grown, atGrown, rfl⟩ := syncLayerState_layer _ _ _ _ index synced atSynced
  have resized : ∃ layer, cache.layers[index]? = some layer ∧
      grown.maxBatchSize = layer.maxBatchSize ∧
      (cache.capacity ≤ layer.maxCacheLen →
        (cache.placeTree treeWidth prefixLengths commitReserve).capacity ≤ grown.maxCacheLen) ∧
      grown.storage.isSome = layer.storage.isSome ∧
      ∀ row, ∀ column < maximum prefixLengths,
        grown.entry row column = layer.entry row column := by
    obtain ⟨-, -, -, -, -, -, -, -, capacity⟩ :=
      placeTree_fields treeWidth commitReserve prefixLengths cache
    rw [capacity]
    dsimp only at atGrown
    split at atGrown
    · next small =>
      obtain ⟨layer, atIndex, sameRows, enough, stored, kept⟩ :=
        grow_layer _ _ cache index grown atGrown
      exact ⟨layer, atIndex, sameRows, fun _ => by rwa [if_pos small], stored, kept⟩
    · next large =>
      exact ⟨grown, atGrown, rfl, fun enough => by rwa [if_neg large], rfl, fun _ _ _ => rfl⟩
  obtain ⟨layer, atIndex, sameRows, enough, stored, kept⟩ := resized
  refine ⟨layer, atIndex, rows.trans sameRows, fun fits => length ▸ enough fits,
    allocated.trans stored, by rw [plan], ?_⟩
  intro row own listed
  have longest := le_maximum prefixLengths own (List.mem_of_getElem? listed)
  refine ⟨?_, ?_⟩
  · rw [plan]
    refine ⟨by dsimp only; omega, fun _ => ?_⟩
    dsimp only
    split
    · next noMask => exact longest
    · next mask someMask =>
      intro column lower below
      obtain ⟨mask', masked, unmasked⟩ :=
        gapMask_prefix prefixLengths _ row own column listed lower below
      obtain rfl : mask' = mask := Option.some.inj (masked.symm.trans someMask)
      exact unmasked
  · intro column below
    rw [outside row column, Layer.entry]
    · exact kept row column (by omega)
    · intro lower _
      obtain ⟨mask, masked, unmasked⟩ :=
        gapMask_prefix prefixLengths _ row own column listed lower below
      rw [masked]
      exact unmasked

theorem placeTree_layer (treeWidth commitReserve : Nat) (prefixLengths : List Nat)
    (cache : DenseTargetCache E)
    (fits : ∀ layer ∈ cache.layers, cache.capacity ≤ layer.maxCacheLen)
    (index : Nat) (placed : Layer E)
    (read : (cache.placeTree treeWidth prefixLengths commitReserve).layers[index]? = some placed) :
    ∃ layer, cache.layers[index]? = some layer ∧ placed.maxBatchSize = layer.maxBatchSize ∧
      (cache.placeTree treeWidth prefixLengths commitReserve).capacity ≤ placed.maxCacheLen ∧
      placed.plan.writeStart = maximum prefixLengths + commitReserve ∧
      ∀ row length, prefixLengths[row]? = some length →
        placed.plan.Protects row length ∧
        ∀ column < length, placed.entry row column = layer.entry row column := by
  obtain ⟨layer, atIndex, rows, long, -, start, keeps⟩ :=
    placeTree_keeps treeWidth commitReserve prefixLengths cache index placed read
  exact ⟨layer, atIndex, rows, long (fits layer (List.mem_of_getElem? atIndex)), start, keeps⟩

/-- A successful write of one layer: the other layers keep their entries, the
written layer keeps what its plan protects and stores every token. -/
theorem updateLayer_layer {target batch queryLen cachePositions : Nat} {states : Storage E}
    {cache updated : DenseTargetCache E}
    (result : cache.updateLayer target batch queryLen cachePositions states = .ok updated)
    (index : Nat) (written : Layer E) (read : updated.layers[index]? = some written) :
    ∃ layer, cache.layers[index]? = some layer ∧ written.plan = layer.plan ∧
      written.maxCacheLen = layer.maxCacheLen ∧
      (∀ row width, layer.plan.Protects row width → ∀ column < width, ∀ value,
        layer.entry row column = some value → written.entry row column = some value) ∧
      (index ≠ target → ∀ row column value,
        layer.entry row column = some value → written.entry row column = some value) ∧
      (index = target → ∀ row < batch, ∀ token < queryLen,
        written.entry row (layer.plan.writeStart + token) = some (states row token)) ∧
      (index = target → batch ≤ written.maxBatchSize) ∧
      (batch ≤ layer.maxBatchSize → batch ≤ written.maxBatchSize) := by
  simp only [updateLayer] at result
  cases atTarget : cache.layers[target]? with
  | none => simp [atTarget] at result
  | some old =>
    cases updating : (old.lazyInitialization batch).update batch queryLen cachePositions states with
    | error reason => simp [atTarget, updating, bind, Except.bind] at result
    | ok new =>
      obtain rfl : _ = updated := by
        simpa [atTarget, updating, bind, Except.bind, pure, Except.pure] using result
      obtain ⟨plan, length, rows, enough⟩ := Layer.update_shape updating
      obtain ⟨initialPlan, initialLength⟩ := Layer.lazyInitialization_plan batch old
      by_cases here : index = target
      · subst here
        rw [List.getElem?_set_self'] at read
        obtain ⟨_, _, same⟩ := Option.map_eq_some_iff.mp read
        obtain rfl : new = written := same
        refine ⟨old, atTarget, plan.trans initialPlan, length.trans initialLength, ?_,
          fun different => absurd rfl different, ?_, fun _ => rows ▸ enough, fun _ => rows ▸ enough⟩
        · intro row width protects column below value held
          exact (Layer.update_entry updating).1 width (initialPlan ▸ protects) column below value
            (Layer.lazyInitialization_entry batch old row column value held)
        · intro _ row active token inside
          rw [← initialPlan]
          exact (Layer.update_entry updating).2 (Layer.lazyInitialization_storage batch old) active
            token inside
      · have others : ∃ layer, cache.layers[index]? = some layer ∧
            (written = layer ∨ written = layer.lazyInitialization batch) := by
          rw [List.getElem?_set_ne (Ne.symm here)] at read
          split at read
          · rw [List.getElem?_map] at read
            obtain ⟨layer, atIndex, rfl⟩ := Option.map_eq_some_iff.mp read
            exact ⟨layer, atIndex, .inr rfl⟩
          · exact ⟨written, read, .inl rfl⟩
        obtain ⟨layer, atIndex, unchanged⟩ := others
        have kept : written.plan = layer.plan ∧ written.maxCacheLen = layer.maxCacheLen ∧
            (∀ row column value, layer.entry row column = some value →
              written.entry row column = some value) ∧
            (batch ≤ layer.maxBatchSize → batch ≤ written.maxBatchSize) := by
          rcases unchanged with rfl | rfl
          · exact ⟨rfl, rfl, fun _ _ _ held => held, id⟩
          · obtain ⟨samePlan, sameLength⟩ := Layer.lazyInitialization_plan batch layer
            exact ⟨samePlan, sameLength, Layer.lazyInitialization_entry batch layer,
              Layer.lazyInitialization_rows batch layer⟩
        obtain ⟨samePlan, sameLength, entries, sameRows⟩ := kept
        exact ⟨layer, atIndex, samePlan, sameLength,
          fun row _ _ column _ value held => entries row column value held,
          fun _ => entries, fun same => absurd same here, fun same => absurd same here, sameRows⟩

theorem updateLayer_fields {target batch queryLen cachePositions : Nat} {states : Storage E}
    {cache updated : DenseTargetCache E}
    (result : cache.updateLayer target batch queryLen cachePositions states = .ok updated) :
    ∃ layers : List (Layer E), layers.length = cache.layers.length ∧
      updated = { cache with layers := layers } := by
  simp only [updateLayer] at result
  cases atTarget : cache.layers[target]? with
  | none => simp [atTarget] at result
  | some old =>
    cases updating : (old.lazyInitialization batch).update batch queryLen cachePositions states with
    | error reason => simp [atTarget, updating, bind, Except.bind] at result
    | ok new =>
      obtain rfl : _ = updated := by
        simpa [atTarget, updating, bind, Except.bind, pure, Except.pure] using result
      refine ⟨_, ?_, rfl⟩
      rw [List.length_set]
      split <;> simp

/-- Staging succeeds only for one positive tree width and one prefix per row. -/
theorem prepareTree_ok {treeWidth commitReserve : Nat} {prefixLengths : List Nat}
    {cache prepared : DenseTargetCache E}
    (result : cache.prepareTree treeWidth prefixLengths commitReserve = .ok prepared) :
    prepared = cache.placeTree treeWidth prefixLengths commitReserve ∧
      prefixLengths.length = cache.activeBatchSize := by
  simp only [prepareTree] at result
  split at result
  · cases result
  next rows =>
  split at result
  · cases result
  split at result
  · cases result
  split at result
  · cases result
  split at result
  · cases result
  exact ⟨(Except.ok.inj result).symm, not_not.mp rows⟩

omit [Zero E] in
theorem compactRows_fields (rowIndices : List Nat) (cache : DenseTargetCache E) :
    (cache.compactRows rowIndices).activeBatchSize = rowIndices.length ∧
      (cache.compactRows rowIndices).capacity = cache.capacity ∧
      (cache.compactRows rowIndices).layers.length = cache.layers.length := by
  unfold compactRows
  split
  · exact ⟨rfl, rfl, rfl⟩
  · exact ⟨rfl, rfl, by simp⟩

omit [Zero E] in
/-- A request that passes its checks fits between its prefix and the staged tree. -/
theorem checkCommit_ok {cache : DenseTargetCache E} {pending : PendingCommit} {done : Unit}
    (result : cache.checkCommit pending = .ok done) :
    pending.row < cache.activeBatchSize ∧ pending.logicalPrefixLen ≤ cache.committedWidth ∧
      pending.selectedTreeIndices.length ≤ cache.commitReserve ∧
      pending.logicalPrefixLen + pending.selectedTreeIndices.length ≤ cache.treeStart := by
  simp only [checkCommit] at result
  split at result
  · cases result
  split at result
  · cases result
  split at result
  · cases result
  split at result
  · cases result
  split at result
  · cases result
  omega

omit [Zero E] in
theorem mem_copies {treeStart : Nat} {requests : List PendingCommit} {copy : Copy} :
    copy ∈ requests.flatMap (pathCopies treeStart) ↔
      ∃ pending ∈ requests, ∃ offset index, pending.selectedTreeIndices[offset]? = some index ∧
        copy = ⟨pending.row, pending.logicalPrefixLen + offset, treeStart + index.toNat⟩ := by
  simp only [List.mem_flatMap, pathCopies, List.mem_mapIdx]
  constructor
  · rintro ⟨pending, member, offset, inside, rfl⟩
    exact ⟨pending, member, offset, _, List.getElem?_eq_getElem inside, rfl⟩
  · rintro ⟨pending, member, offset, index, read, rfl⟩
    obtain ⟨inside, rfl⟩ := List.getElem?_eq_some_iff.mp read
    exact ⟨pending, member, offset, inside, rfl⟩

omit [Zero E] in
/-- A successful commit leaves every prefix alone and appends each selected staged
entry to its own row. -/
theorem commitPaths_layer {requests : List PendingCommit} {cache committed : DenseTargetCache E}
    {counts : List Nat} (result : cache.commitPaths requests = .ok (committed, counts))
    (distinct : (requests.map PendingCommit.row).Nodup)
    (index : Nat) (after : Layer E) (read : committed.layers[index]? = some after) :
    ∃ before, cache.layers[index]? = some before ∧
      after.maxCacheLen = before.maxCacheLen ∧ after.maxBatchSize = before.maxBatchSize ∧
      (∀ row column, (∀ pending ∈ requests, pending.row = row →
          column < pending.logicalPrefixLen ∨ cache.treeStart ≤ column) →
        after.entry row column = before.entry row column) ∧
      (cache.activeBatchSize ≤ before.maxBatchSize →
        cache.treeStart + cache.treeWidth ≤ before.maxCacheLen →
        ∀ pending ∈ requests, ∀ offset (node : Nat),
          pending.selectedTreeIndices[offset]? = some (node : Int) →
          after.entry pending.row (pending.logicalPrefixLen + offset) =
            before.entry pending.row (cache.treeStart + node)) := by
  simp only [commitPaths] at result
  split at result
  · next none =>
    obtain ⟨rfl, -⟩ := Prod.mk.inj (Except.ok.inj result)
    exact ⟨after, read, rfl, rfl, fun _ _ _ => rfl, fun _ _ pending member => by
      simp [none] at member⟩
  cases checking : requests.mapM cache.checkCommit with
  | error reason => simp [checking, bind, Except.bind] at result
  | ok done =>
    have checked : ∀ pending ∈ requests, pending.row < cache.activeBatchSize ∧
        pending.logicalPrefixLen ≤ cache.committedWidth ∧
        pending.selectedTreeIndices.length ≤ cache.commitReserve ∧
        pending.logicalPrefixLen + pending.selectedTreeIndices.length ≤ cache.treeStart := by
      intro pending member
      obtain ⟨_, success⟩ := Rows.mapM_mem requests _ done checking pending member
      exact checkCommit_ok success
    simp only [checking, bind, Except.bind] at result
    split at result
    · cases result
    next inRange =>
    obtain ⟨rfl, -⟩ := Prod.mk.inj (Except.ok.inj result)
    rw [List.getElem?_map] at read
    obtain ⟨before, atIndex, rfl⟩ := Option.map_eq_some_iff.mp read
    have staged : ∀ pending ∈ requests, ∀ index ∈ pending.selectedTreeIndices,
        0 ≤ index ∧ index < (cache.treeWidth : Int) := by
      simpa [not_or] using inRange
    refine ⟨before, atIndex, rfl, rfl, ?_, ?_⟩
    · intro row column outside
      cases shape : before.storage with
      | none => simp [Layer.entry, shape]
      | some storage =>
        simp only [Layer.entry, shape, Option.map_some, Option.some_inj]
        apply copySelected_frame
        intro copy member sameRow
        obtain ⟨pending, listed, offset, index, atOffset, rfl⟩ := mem_copies.mp member
        have bound := (List.getElem?_eq_some_iff.mp atOffset).1
        have fits := checked pending listed
        rcases outside pending listed sameRow with below | above
        · dsimp only
          omega
        · dsimp only
          omega
    · intro rows columns pending member offset node atOffset
      cases shape : before.storage with
      | none => simp [Layer.entry, shape]
      | some storage =>
        simp only [Layer.entry, shape, Option.map_some, Option.some_inj]
        have copied := copySelected_copied before.maxBatchSize before.maxCacheLen cache.treeStart
          (requests.flatMap (pathCopies cache.treeStart)) storage ?_ ?_ ?_
          ⟨pending.row, pending.logicalPrefixLen + offset, cache.treeStart + node⟩
          (mem_copies.mpr ⟨pending, member, offset, node, atOffset, by simp⟩)
        · exact copied
        · intro copy listed
          obtain ⟨other, kept, place, index', atPlace, rfl⟩ := mem_copies.mp listed
          have bound := (List.getElem?_eq_some_iff.mp atPlace).1
          have fits := checked other kept
          dsimp only
          omega
        · intro copy listed
          obtain ⟨other, kept, place, index', atPlace, rfl⟩ := mem_copies.mp listed
          have fits := checked other kept
          have inTree := staged other kept index' (List.mem_of_getElem? atPlace)
          dsimp only
          omega
        · -- Two copies of one cell come from one position of one request.
          intro left leftListed right rightListed sameRow sameDestination
          obtain ⟨first, firstKept, place, index', atPlace, rfl⟩ := mem_copies.mp leftListed
          obtain ⟨second, secondKept, place', index'', atPlace', rfl⟩ := mem_copies.mp rightListed
          obtain rfl : first = second := List.inj_on_of_nodup_map distinct firstKept secondKept sameRow
          obtain rfl : place = place' := by
            dsimp only at sameDestination
            omega
          obtain rfl : index' = index'' := Option.some.inj (atPlace.symm.trans atPlace')
          rfl

omit [Zero E] in
/-- The bookkeeping after a commit: the committed width covers every new prefix. -/
theorem commitPaths_fields {requests : List PendingCommit} {cache committed : DenseTargetCache E}
    {counts : List Nat} (result : cache.commitPaths requests = .ok (committed, counts)) :
    committed.activeBatchSize = cache.activeBatchSize ∧ committed.capacity = cache.capacity ∧
      committed.layers.length = cache.layers.length ∧
      committed.committedCapacity = cache.committedCapacity ∧
      cache.committedWidth ≤ committed.committedWidth ∧
      ∀ pending ∈ requests, pending.logicalPrefixLen + pending.selectedTreeIndices.length ≤
        committed.committedWidth := by
  simp only [commitPaths] at result
  split at result
  · next none =>
    obtain ⟨rfl, -⟩ := Prod.mk.inj (Except.ok.inj result)
    exact ⟨rfl, rfl, rfl, rfl, Nat.le_refl _, by simp [none]⟩
  cases checking : requests.mapM cache.checkCommit with
  | error reason => simp [checking, bind, Except.bind] at result
  | ok done =>
    simp only [checking, bind, Except.bind] at result
    split at result
    · cases result
    obtain ⟨rfl, -⟩ := Prod.mk.inj (Except.ok.inj result)
    refine ⟨rfl, rfl, by simp, rfl, le_maximum _ _ List.mem_cons_self, fun pending member => ?_⟩
    have listed := List.mem_map_of_mem (f := fun pending : PendingCommit =>
      pending.logicalPrefixLen + pending.selectedTreeIndices.length) member
    exact le_maximum _ _ (List.mem_cons_of_mem _ listed)

omit [Zero E] in
/-- Compaction moves each surviving row's committed columns to its new row. -/
theorem compactRows_layer (rowIndices : List Nat) (cache : DenseTargetCache E) (index : Nat)
    (after : Layer E) (read : (cache.compactRows rowIndices).layers[index]? = some after) :
    ∃ before, cache.layers[index]? = some before ∧
      after.maxCacheLen = before.maxCacheLen ∧ after.maxBatchSize = before.maxBatchSize ∧
      ∀ position row, rowIndices[position]? = some row → ∀ column < cache.committedWidth,
        after.entry position column = before.entry row column := by
  unfold compactRows at read
  split at read
  · next identity =>
    refine ⟨after, read, rfl, rfl, fun position row listed column _ => ?_⟩
    have inside := (List.getElem?_eq_some_iff.mp listed).1
    have own : rowIndices[position]? = some position := by
      conv_lhs => rw [identity]
      exact List.getElem?_range inside
    obtain rfl : position = row := Option.some.inj (own.symm.trans listed)
    rfl
  · rw [List.getElem?_map] at read
    obtain ⟨before, atIndex, rfl⟩ := Option.map_eq_some_iff.mp read
    refine ⟨before, atIndex, rfl, rfl, fun position row listed column below => ?_⟩
    have inside := (List.getElem?_eq_some_iff.mp listed).1
    cases shape : before.storage with
    | none => simp [Layer.entry, shape]
    | some storage =>
      simp only [Layer.entry, shape, Option.map_some, Option.some_inj]
      rw [if_pos ⟨inside, below⟩, List.getD_eq_getElem?_getD, listed]
      rfl

/-- Staging succeeds for one positive tree width and one prefix per row, within the capacity. -/
theorem prepareTree_total (cache : DenseTargetCache E) {treeWidth commitReserve : Nat}
    {prefixLengths : List Nat} (rows : prefixLengths.length = cache.activeBatchSize)
    (nonempty : prefixLengths ≠ []) (positive : 0 < treeWidth) (reserved : commitReserve ≤ treeWidth)
    (bounded : ∀ length ∈ prefixLengths, length ≤ cache.committedCapacity) :
    cache.prepareTree treeWidth prefixLengths commitReserve =
      .ok (cache.placeTree treeWidth prefixLengths commitReserve) := by
  unfold prepareTree
  rw [if_neg (not_not.mpr rows), if_neg (Nat.ne_of_gt positive), if_neg (Nat.not_lt.mpr reserved),
    if_neg, if_neg nonempty]
  intro long
  obtain ⟨length, member, outside⟩ := List.any_eq_true.mp long
  exact Nat.not_lt.mpr (bounded length member) (of_decide_eq_true outside)

/-- Staging within the declared width does not grow the cache. -/
theorem placeTree_declared (treeWidth commitReserve : Nat) (prefixLengths : List Nat)
    (cache : DenseTargetCache E) (narrow : treeWidth ≤ cache.maxTreeWidth)
    (room : maximum prefixLengths + commitReserve + treeWidth ≤ cache.capacity) :
    (cache.placeTree treeWidth prefixLengths commitReserve).maxTreeWidth = cache.maxTreeWidth ∧
      (cache.placeTree treeWidth prefixLengths commitReserve).capacity = cache.capacity := by
  constructor
  · simp only [placeTree, clearShared, syncLayerState]
    split <;> split <;> exact Nat.max_eq_left narrow
  · obtain ⟨-, -, -, -, -, -, -, -, capacity⟩ :=
      placeTree_fields treeWidth commitReserve prefixLengths cache
    rw [capacity, if_neg (Nat.not_lt.mpr room)]

omit [Zero E] in
theorem compactRows_declared (rowIndices : List Nat) (cache : DenseTargetCache E) :
    (cache.compactRows rowIndices).committedCapacity = cache.committedCapacity ∧
      (cache.compactRows rowIndices).maxTreeWidth = cache.maxTreeWidth ∧
      (cache.compactRows rowIndices).capacity = cache.capacity := by
  unfold compactRows
  split <;> exact ⟨rfl, rfl, rfl⟩

omit [Zero E] in
/-- A commit succeeds when every path fits its row, the reserve and the capacity. -/
theorem commitPaths_total {cache : DenseTargetCache E} (requests : List PendingCommit)
    (checked : ∀ pending ∈ requests, pending.row < cache.activeBatchSize ∧
      pending.logicalPrefixLen ≤ cache.committedWidth ∧
      pending.selectedTreeIndices.length ≤ cache.commitReserve ∧
      pending.logicalPrefixLen + pending.selectedTreeIndices.length ≤ cache.committedCapacity ∧
      pending.logicalPrefixLen + pending.selectedTreeIndices.length ≤ cache.treeStart ∧
      ∀ index ∈ pending.selectedTreeIndices, 0 ≤ index ∧ index < (cache.treeWidth : Int)) :
    ∃ committed counts, cache.commitPaths requests = .ok (committed, counts) ∧
      committed.committedCapacity = cache.committedCapacity ∧
      committed.maxTreeWidth = cache.maxTreeWidth ∧ committed.capacity = cache.capacity := by
  unfold commitPaths
  split
  next => exact ⟨_, _, rfl, rfl, rfl, rfl⟩
  next =>
    obtain ⟨done, passed, -⟩ := Rows.mapM_forall₂ requests cache.checkCommit (fun _ _ => True) (by
      intro pending member
      obtain ⟨row, width, reserve, capacity, start, -⟩ := checked pending member
      refine ⟨(), ?_, trivial⟩
      unfold checkCommit
      rw [if_neg (Nat.not_le.mpr row), if_neg (Nat.not_lt.mpr width), if_neg (Nat.not_lt.mpr reserve),
        if_neg (Nat.not_lt.mpr capacity), if_neg (Nat.not_lt.mpr start)])
    have inRange : ¬ requests.any (fun pending => pending.selectedTreeIndices.any (fun index =>
        index < 0 ∨ (cache.treeWidth : Int) ≤ index)) = true := by
      intro outside
      obtain ⟨pending, member, indexOutside⟩ := List.any_eq_true.mp outside
      obtain ⟨index, listed, beyond⟩ := List.any_eq_true.mp indexOutside
      have inside := (checked pending member).2.2.2.2.2 index listed
      have reached := of_decide_eq_true beyond
      omega
    simp only [passed, bind, Except.bind]
    rw [if_neg inRange]
    exact ⟨_, _, rfl, rfl, rfl, rfl⟩

end DenseTargetCache

end SpecBlock.Batch
