import Mathlib
import SpecBlock.Batch.CacheOperations

/-!
# What a staged tree attends to

`prepare_tree` places the packed trees behind the longest committed prefix and a reserved window,
and `_build_additive_mask` opens columns of the same physical layout: a row's own committed prefix
and, from the start of the staged trees, the nodes its tree mask shows. Queries that only pad a tree
are given one private column each.

The column at which the trees start is computed by the cache and handed to the mask; a layer writes
the states of node `j` behind the same start. The columns between a row's prefix and the trees are
cleared, either at once for shared storage or by the layer's own write, and no query sees them.
-/

namespace SpecBlock.Batch

variable {E : Type} [Zero E]

/-- An entry of an additive attention mask: `0.0` or `-inf`. -/
inductive Bias where
  | zero
  | negInf
  deriving DecidableEq, Repr

/-- The additive mask of a batch, by row, query and column. -/
structure AdditiveMask where
  queries : Nat
  columns : Nat
  bias : List (Nat → Nat → Bias)

/-- Whether a query of a row can attend to a column. -/
def AdditiveMask.visible (mask : AdditiveMask) (row query column : Nat) : Bool :=
  match mask.bias[row]? with
  | some bias => bias query column == .zero
  | none => false

/-- Open one row: its committed prefix, the shown nodes of its tree, and a private column for each
padded query. -/
def fillRow (tree : Tree) (prefixLen treeStart width treeWidth : Nat) : Nat → Nat → Bias :=
  let committed : Nat → Nat → Bias := fun query column =>
    if query < width ∧ column < prefixLen then .zero else .negInf
  let treeBlock : Nat → Nat → Bias := fun query column =>
    if query < width ∧ treeStart ≤ column ∧ column < treeStart + width ∧
        (tree.mask.getD query []).getD (column - treeStart) false = true then .zero
    else committed query column
  (List.range' width (treeWidth - width)).foldl (fun bias queryIdx => fun query column =>
    if query = queryIdx ∧ column = treeStart + queryIdx then .zero else bias query column) treeBlock

/-- `_build_additive_mask`. A node sees its request's prefix and its ancestors, a padded query a
column of its own. The gap between them and rows without a tree stay at minus infinity. -/
def buildAdditiveMask (trees : List Tree) (prefixLengths : List Nat) (treeStart : Nat)
    (treeWidths : List Nat) (treeWidth : Nat) : Except String AdditiveMask :=
  if prefixLengths = [] then .error "max() arg is an empty sequence"
  else if treeStart < maximum prefixLengths then
    .error "staged target tree overlaps committed KV"
  else
    .ok { queries := treeWidth
          columns := treeStart + treeWidth
          bias := trees.mapIdx (fun idx tree =>
            match prefixLengths[idx]?, treeWidths[idx]? with
            | some prefixLen, some width => fillRow tree prefixLen treeStart width treeWidth
            | _, _ => fun _ _ => .negInf) }

/-- A node and its parent. -/
def Above (parent : Nat → Option Nat) (node above : Nat) : Prop := parent node = some above

/-- The tree mask shows each node itself and its ancestors. -/
structure ShowsAncestors (tree : Tree) (parent : Nat → Option Nat) : Prop where
  inside : ∀ node < tree.width, ∀ above, Above parent node above → above < tree.width
  shown : ∀ query < tree.width, ∀ node < tree.width,
    (tree.mask.getD query []).getD node false = true ↔
      Relation.ReflTransGen (Above parent) query node

section mask

variable {tree : Tree} {parent : Nat → Option Nat}

theorem ShowsAncestors.ancestor_inside (shows : ShowsAncestors tree parent) {query node : Nat}
    (inside : query < tree.width) (chain : Relation.ReflTransGen (Above parent) query node) :
    node < tree.width := by
  induction chain with
  | refl => exact inside
  | tail _ link ih => exact shows.inside _ ih _ link

/-- A mask shows ancestors when each row is the node itself and the row of its parent. -/
theorem ShowsAncestors.of_rows
    (decreasing : ∀ node < tree.width, ∀ above ∈ parent node, above < node)
    (rows : ∀ query < tree.width, ∀ node < tree.width, (tree.mask.getD query []).getD node false =
      (query == node || (parent query).any (fun above => (tree.mask.getD above []).getD node false))) :
    ShowsAncestors tree parent where
  inside := fun node inside above link => (decreasing node inside above link).trans inside
  shown := by
    intro query inside node real
    induction query using Nat.strong_induction_on with
    | _ query ih =>
      rw [rows query inside node real, Bool.or_eq_true, beq_iff_eq, Option.any_eq_true,
        Relation.ReflTransGen.cases_head_iff]
      refine or_congr_right (exists_congr fun above => and_congr_right fun link => ?_)
      have before := decreasing query inside above link
      exact ih above before (before.trans inside)

theorem privateColumns_eq (treeStart : Nat) (queries : List Nat) (bias : Nat → Nat → Bias)
    (query column : Nat) :
    queries.foldl (fun bias queryIdx => fun query column =>
        if query = queryIdx ∧ column = treeStart + queryIdx then Bias.zero else bias query column)
      bias query column = .zero ↔
      (query ∈ queries ∧ column = treeStart + query) ∨ bias query column = .zero := by
  induction queries generalizing bias with
  | nil => simp
  | cons first rest ih =>
    rw [List.foldl_cons, ih, List.mem_cons]
    by_cases here : query = first ∧ column = treeStart + first
    · obtain ⟨rfl, rfl⟩ := here
      simp
    · rw [if_neg here]
      constructor
      · rintro (⟨later, private_column⟩ | opened)
        · exact .inl ⟨.inr later, private_column⟩
        · exact .inr opened
      · rintro (⟨rfl | later, private_column⟩ | opened)
        · exact absurd ⟨rfl, private_column⟩ here
        · exact .inl ⟨later, private_column⟩
        · exact .inr opened

/-- A node's query sees the committed prefix and its ancestors. -/
theorem fillRow_node (shows : ShowsAncestors tree parent) {prefixLen treeStart treeWidth : Nat}
    (query column : Nat) (inside : query < tree.width) :
    fillRow tree prefixLen treeStart tree.width treeWidth query column = .zero ↔
      column < prefixLen ∨ ∃ node, column = treeStart + node ∧
        Relation.ReflTransGen (Above parent) query node := by
  simp only [fillRow]
  rw [privateColumns_eq, List.mem_range'_1]
  constructor
  · rintro (⟨⟨beyond, -⟩, -⟩ | opened)
    · omega
    · split at opened
      · next shown =>
        obtain ⟨-, lower, upper, seen⟩ := shown
        refine .inr ⟨column - treeStart, by omega, ?_⟩
        exact (shows.shown query inside _ (by omega)).mp seen
      · split at opened
        · next committed => exact .inl committed.2
        · exact absurd opened (by decide)
  · rintro (committed | ⟨node, rfl, chain⟩)
    · right
      split
      · rfl
      · rw [if_pos ⟨inside, committed⟩]
    · have real := shows.ancestor_inside inside chain
      have seen := (shows.shown query inside node real).mpr chain
      exact .inr (if_pos ⟨inside, by omega, by omega, by rwa [Nat.add_sub_cancel_left]⟩)

theorem fillRow_padded {prefixLen treeStart width treeWidth : Nat} (query column : Nat)
    (padded : width ≤ query) (staged : query < treeWidth) :
    fillRow tree prefixLen treeStart width treeWidth query column = .zero ↔
      column = treeStart + query := by
  simp only [fillRow]
  rw [privateColumns_eq, List.mem_range'_1, if_neg (by omega), if_neg (by omega)]
  constructor
  · rintro (⟨-, private_column⟩ | impossible)
    · exact private_column
    · exact absurd impossible (by decide)
  · exact fun private_column => .inl ⟨⟨padded, by omega⟩, private_column⟩

end mask

namespace DenseTargetCache

/-- A column behind a row's own prefix is masked into the gap. -/
theorem gapMask_behind (prefixLengths : List Nat) (treeStart row length column : Nat)
    (listed : prefixLengths[row]? = some length) (behind : length ≤ column)
    (before : column < treeStart) :
    gapStart prefixLengths ≤ column ∧
      match gapMask prefixLengths treeStart with
      | none => maximum prefixLengths ≤ column
      | some mask => (mask.getD row []).getD (column - gapStart prefixLengths) false = true := by
  have member := List.mem_of_getElem? listed
  have nonempty := List.ne_nil_of_mem member
  have shortest : gapStart prefixLengths ≤ length := by
    cases least : prefixLengths.min? with
    | none => exact absurd (List.min?_eq_none_iff.mp least) nonempty
    | some size =>
      rw [gapStart, least, Option.getD_some]
      exact (List.min?_eq_some_iff.mp least).2 length member
  refine ⟨shortest.trans behind, ?_⟩
  unfold gapMask
  by_cases ragged : gapStart prefixLengths = maximum prefixLengths
  · rw [if_neg (not_not.mpr ragged)]
    dsimp only
    omega
  · rw [if_pos ragged]
    simp only [raggedMask, List.getD_eq_getElem?_getD, List.getElem?_map, listed, Option.map_some,
      Option.getD_some]
    rw [List.getElem?_range (by omega), Option.map_some, Option.getD_some, decide_eq_true_eq]
    omega

/-- A layer whose shared gap is cleared holds a cleared storage. -/
theorem clearShared_cleared (start : Nat) (mask : Option (List (List Bool)))
    (cache : DenseTargetCache E) (waiting : ∀ layer ∈ cache.layers, layer.plan.gapCleared = false)
    (index : Nat) (cleared : Layer E)
    (read : (cache.clearShared start mask).layers[index]? = some cleared)
    (done : cleared.plan.gapCleared = true) (storage : Storage E)
    (allocated : cleared.storage = some storage) :
    ∃ old, storage = clearGap cache.activeBatchSize start cache.treeStart mask old := by
  unfold clearShared at read
  split at read
  · rw [List.getElem?_map] at read
    obtain ⟨layer, -, rfl⟩ := Option.map_eq_some_iff.mp read
    obtain ⟨old, -, rfl⟩ := Option.map_eq_some_iff.mp allocated
    exact ⟨old, rfl⟩
  · rw [waiting cleared (List.mem_of_getElem? read)] at done
    exact absurd done (by decide)

/-- What staging leaves to a layer's write: its plan, and the columns behind a row's prefix, which
are either cleared already or still to be cleared by the plan. -/
theorem placeTree_gap (treeWidth commitReserve : Nat) (prefixLengths : List Nat)
    (cache : DenseTargetCache E) (index : Nat) (placed : Layer E)
    (read : (cache.placeTree treeWidth prefixLengths commitReserve).layers[index]? = some placed) :
    ∃ cleared, placed.plan = ⟨maximum prefixLengths + commitReserve + treeWidth,
        maximum prefixLengths, maximum prefixLengths + commitReserve, gapStart prefixLengths,
        gapMask prefixLengths (maximum prefixLengths + commitReserve), cleared⟩ ∧
      (cleared = true → ∀ storage, placed.storage = some storage →
        ∀ row < cache.activeBatchSize, ∀ length, prefixLengths[row]? = some length →
          ∀ column, length ≤ column → column < maximum prefixLengths + commitReserve →
            storage row column = 0) := by
  obtain ⟨synced, done, atSynced, -, -, plan, -⟩ := clearShared_layer _ _ _ index placed read
  obtain ⟨layer, -, rfl⟩ := syncLayerState_layer _ _ _ _ index synced atSynced
  refine ⟨done, plan, fun isDone storage allocated row active length listed column behind before => ?_⟩
  obtain ⟨old, rfl⟩ := clearShared_cleared _ _ _ (by
    intro waiting member
    obtain ⟨position, there⟩ := List.getElem?_of_mem member
    obtain ⟨other, -, rfl⟩ := syncLayerState_layer _ _ _ _ position waiting there
    rfl) index placed read (by rw [plan]; exact isDone) storage allocated
  obtain ⟨lower, masked⟩ := gapMask_behind prefixLengths _ row length column listed behind before
  have rows : row < (if cache.capacity < maximum prefixLengths + commitReserve + treeWidth then
      cache.grow (max (maximum prefixLengths + commitReserve + treeWidth)
        (cache.committedCapacity + 2 * max cache.maxTreeWidth treeWidth)) (maximum prefixLengths)
      else cache).activeBatchSize := by
    split <;> exact active
  refine if_pos ⟨rows, lower, before, ?_⟩
  cases shape : gapMask prefixLengths (maximum prefixLengths + commitReserve) with
  | none => rfl
  | some mask =>
    rw [shape] at masked
    exact masked

theorem update_gap {batch queryLen cachePositions : Nat} {states : Storage E} {layer updated : Layer E}
    (result : layer.update batch queryLen cachePositions states = .ok updated)
    (storage : Storage E) (allocated : layer.storage = some storage) (row column : Nat)
    (before : column < layer.plan.writeStart)
    (gap : layer.plan.clear batch storage row column = 0) :
    updated.entry row column = some 0 := by
  simp only [Layer.update] at result
  split at result
  · cases result
  split at result
  · cases result
  split at result
  · cases result
  split at result
  · cases result
  obtain rfl := Except.ok.inj result
  simp only [Layer.entry, allocated, Option.map_some, Option.some_inj]
  rw [writeStates_frame _ _ _ _ _ _ _ before]
  exact gap

/-- The plan of a staged layer clears the columns between a row's prefix and the trees. -/
theorem placeTree_clear (treeWidth commitReserve : Nat) (prefixLengths : List Nat)
    (cache : DenseTargetCache E) (index : Nat) (placed : Layer E)
    (read : (cache.placeTree treeWidth prefixLengths commitReserve).layers[index]? = some placed)
    (batch : Nat) (storage : Storage E)
    (allocated : (placed.lazyInitialization batch).storage = some storage) (row length : Nat)
    (active : row < cache.activeBatchSize) (inBatch : row < batch)
    (listed : prefixLengths[row]? = some length) (column : Nat) (behind : length ≤ column)
    (before : column < maximum prefixLengths + commitReserve) :
    placed.plan.clear batch storage row column = 0 := by
  obtain ⟨cleared, plan, zeroed⟩ := placeTree_gap treeWidth commitReserve prefixLengths cache index
    placed read
  obtain ⟨lower, masked⟩ := gapMask_behind prefixLengths _ row length column listed behind before
  rw [plan, Plan.clear]
  cases cleared with
  | true =>
    rw [if_pos rfl]
    cases shape : placed.storage with
    | none =>
      obtain rfl : (fun _ _ => 0) = storage := by simpa [Layer.lazyInitialization, shape] using allocated
      rfl
    | some own =>
      obtain rfl : own = storage := by simpa [Layer.lazyInitialization, shape] using allocated
      exact zeroed rfl own shape row active length listed column behind before
  | false =>
    rw [if_neg Bool.false_ne_true]
    cases shape : gapMask prefixLengths (maximum prefixLengths + commitReserve) with
    | none =>
      rw [shape] at masked
      dsimp only at masked ⊢
      rw [if_pos (by omega)]
      exact if_pos ⟨inBatch, masked, before, rfl⟩
    | some mask =>
      rw [shape] at masked
      exact if_pos ⟨inBatch, lower, before, masked⟩

theorem updateLayer_target {target batch queryLen cachePositions : Nat} {states : Storage E}
    {cache updated : DenseTargetCache E}
    (result : cache.updateLayer target batch queryLen cachePositions states = .ok updated)
    (written : Layer E) (read : updated.layers[target]? = some written) :
    ∃ layer, cache.layers[target]? = some layer ∧
      (layer.lazyInitialization batch).update batch queryLen cachePositions states = .ok written := by
  simp only [updateLayer] at result
  cases atTarget : cache.layers[target]? with
  | none => simp [atTarget] at result
  | some old =>
    cases updating : (old.lazyInitialization batch).update batch queryLen cachePositions states with
    | error reason => simp [atTarget, updating, bind, Except.bind] at result
    | ok new =>
      obtain rfl : _ = updated := by
        simpa [atTarget, updating, bind, Except.bind, pure, Except.pure] using result
      rw [List.getElem?_set_self'] at read
      obtain ⟨_, _, rfl⟩ := Option.map_eq_some_iff.mp read
      exact ⟨old, rfl, updating⟩

/-- A write of one row per prefix, over the staged width, succeeds in a layer that has room. -/
theorem placeTree_update (treeWidth commitReserve : Nat) (prefixLengths : List Nat)
    (cache : DenseTargetCache E) (index : Nat) (states : Storage E)
    (present : index < cache.layers.length)
    (fits : ∀ layer, cache.layers[index]? = some layer → cache.capacity ≤ layer.maxCacheLen)
    (rows : ∀ layer, cache.layers[index]? = some layer → layer.storage.isSome = true →
      prefixLengths.length ≤ layer.maxBatchSize) :
    ∃ updated, (cache.placeTree treeWidth prefixLengths commitReserve).updateLayer index
      prefixLengths.length treeWidth treeWidth states = .ok updated := by
  obtain ⟨-, -, -, -, -, -, count, -, capacity⟩ :=
    placeTree_fields treeWidth commitReserve prefixLengths cache
  have inside : index < (cache.placeTree treeWidth prefixLengths commitReserve).layers.length := by
    rwa [count]
  have read := List.getElem?_eq_getElem inside
  generalize (cache.placeTree treeWidth prefixLengths commitReserve).layers[index] = placed at read
  obtain ⟨layer, atIndex, sameRows, long, stored, -, -⟩ :=
    placeTree_keeps treeWidth commitReserve prefixLengths cache index placed read
  obtain ⟨cleared, plan, -⟩ := placeTree_gap treeWidth commitReserve prefixLengths cache index placed
    read
  obtain ⟨samePlan, sameLength⟩ := Layer.lazyInitialization_plan prefixLengths.length placed
  have room : prefixLengths.length ≤
      (placed.lazyInitialization prefixLengths.length).maxBatchSize := by
    unfold Layer.lazyInitialization
    split
    · next storage allocated =>
      rw [sameRows]
      exact rows layer atIndex (stored ▸ by rw [allocated]; rfl)
    · exact Nat.le_refl _
  have wide : maximum prefixLengths + commitReserve + treeWidth ≤ placed.maxCacheLen := by
    have enough := long (fits layer atIndex)
    rw [capacity] at enough
    split at enough <;> omega
  have masks : (gapMask prefixLengths (maximum prefixLengths + commitReserve)).any
      (fun mask => mask.length != prefixLengths.length) = false := by
    unfold gapMask
    split <;> simp [raggedMask]
  have update : ∃ updated, (placed.lazyInitialization prefixLengths.length).update
      prefixLengths.length treeWidth treeWidth states = .ok updated := by
    unfold Layer.update
    rw [samePlan, sameLength, plan]
    dsimp only
    rw [if_neg (Nat.not_lt.mpr room), if_neg (not_not.mpr rfl), if_neg (by omega), masks,
      Bool.and_false, if_neg Bool.false_ne_true]
    exact ⟨_, rfl⟩
  obtain ⟨updated, done⟩ := update
  rw [updateLayer, read]
  simp only [done, bind, Except.bind]
  exact ⟨_, rfl⟩

end DenseTargetCache

/-- What the queries of a row see: a node its committed prefix and its ancestors, a padded query its
private column. -/
structure RowVisible (mask : AdditiveMask) (row : Nat) (tree : Tree) (prefixLen treeStart : Nat)
    (parent : Nat → Option Nat) : Prop where
  node : ∀ query < tree.width, ∀ column, mask.visible row query column = true ↔
    column < prefixLen ∨ ∃ node, column = treeStart + node ∧
      Relation.ReflTransGen (Above parent) query node
  padded : ∀ query, tree.width ≤ query → query < mask.queries → ∀ column,
    mask.visible row query column = true ↔ column = treeStart + query

/-- What a layer holds in a row after its write: the committed prefix it held before, zeros up to
the trees, and the staged states. -/
structure RowStaged (before after : Layer E) (row prefixLen treeStart treeWidth : Nat)
    (states : Storage E) : Prop where
  committed : ∀ column < prefixLen, ∀ value, before.entry row column = some value →
    after.entry row column = some value
  gap : ∀ column, prefixLen ≤ column → column < treeStart → after.entry row column = some 0
  staged : ∀ node < treeWidth, after.entry row (treeStart + node) = some (states row node)

section visibility

variable (cache prepared : DenseTargetCache E) (requests : List (Tree × Nat))
  (padTokenId commitReserve : Nat)
  (staging : cache.prepareTree (packTrees requests padTokenId).treeWidth (requests.map Prod.snd)
    commitReserve = .ok prepared)
include staging

theorem staging_nonempty : requests.map Prod.snd ≠ [] := by
  intro empty
  rw [DenseTargetCache.prepareTree, empty] at staging
  split_ifs at staging with _ _ _ _ some_prefix
  exact some_prefix rfl

/-- The mask is built over the columns that the attention reads. -/
theorem buildAdditiveMask_ok :
    ∃ bias, buildAdditiveMask (requests.map Prod.fst) (requests.map Prod.snd) prepared.treeStart
        (packTrees requests padTokenId).widths (packTrees requests padTokenId).treeWidth =
      .ok ⟨(packTrees requests padTokenId).treeWidth, prepared.attentionWidth, bias⟩ ∧
      ∀ (row : Nat) (request : Tree × Nat), requests[row]? = some request →
        bias[row]? = some (fillRow request.1 request.2 prepared.treeStart request.1.width
          (packTrees requests padTokenId).treeWidth) := by
  have nonempty := staging_nonempty cache prepared requests padTokenId commitReserve staging
  obtain ⟨rfl, -⟩ := DenseTargetCache.prepareTree_ok staging
  obtain ⟨-, -, -, start, -, -, -, -, -⟩ := DenseTargetCache.placeTree_fields
    (packTrees requests padTokenId).treeWidth commitReserve (requests.map Prod.snd) cache
  have width : (cache.placeTree (packTrees requests padTokenId).treeWidth (requests.map Prod.snd)
      commitReserve).attentionWidth = (cache.placeTree (packTrees requests padTokenId).treeWidth
        (requests.map Prod.snd) commitReserve).treeStart +
          (packTrees requests padTokenId).treeWidth := by
    simp only [DenseTargetCache.placeTree, DenseTargetCache.clearShared,
      DenseTargetCache.syncLayerState]
    split <;> split <;> rfl
  rw [buildAdditiveMask, if_neg nonempty, if_neg (by rw [start]; omega), width]
  refine ⟨_, rfl, fun row request listed => ?_⟩
  simp [List.getElem?_mapIdx, listed, packTrees]

theorem rowStaged_of_update {index : Nat} {states : Storage E} {updated : DenseTargetCache E}
    (written : prepared.updateLayer index requests.length (packTrees requests padTokenId).treeWidth
      (packTrees requests padTokenId).treeWidth states = .ok updated)
    (before after : Layer E) (atIndex : cache.layers[index]? = some before)
    (read : updated.layers[index]? = some after) (row : Nat) (request : Tree × Nat)
    (listed : requests[row]? = some request) :
    RowStaged before after row request.2 prepared.treeStart
      (packTrees requests padTokenId).treeWidth states := by
  obtain ⟨rfl, active⟩ := DenseTargetCache.prepareTree_ok staging
  rw [List.length_map] at active
  have inBatch : row < requests.length := (List.getElem?_eq_some_iff.mp listed).1
  have own : (requests.map Prod.snd)[row]? = some request.2 := by rw [List.getElem?_map, listed]; rfl
  obtain ⟨-, -, -, start, -, -, -, -, -⟩ := DenseTargetCache.placeTree_fields
    (packTrees requests padTokenId).treeWidth commitReserve (requests.map Prod.snd) cache
  obtain ⟨placed, atPlaced, -, -, protected_columns, -, stored, -⟩ :=
    DenseTargetCache.updateLayer_layer written index after read
  obtain ⟨layer, again, -, -, -, writeStart, keeps⟩ := DenseTargetCache.placeTree_keeps _ _ _ cache
    index placed atPlaced
  obtain rfl : before = layer := Option.some.inj (atIndex.symm.trans again)
  obtain ⟨protects, kept⟩ := keeps row request.2 own
  refine ⟨fun column below value held => ?_, fun column behind beyond => ?_, fun node inside => ?_⟩
  · exact protected_columns row request.2 protects column below value
      ((kept column below).trans held)
  · obtain ⟨target, atTarget, updating⟩ := DenseTargetCache.updateLayer_target written after read
    obtain rfl : placed = target := Option.some.inj (atPlaced.symm.trans atTarget)
    obtain ⟨samePlan, -⟩ := Layer.lazyInitialization_plan requests.length placed
    obtain ⟨storage, allocated⟩ := Option.isSome_iff_exists.mp
      (Layer.lazyInitialization_storage requests.length placed)
    rw [start] at beyond
    refine DenseTargetCache.update_gap updating storage allocated row column ?_ ?_
    · rw [samePlan, writeStart]
      exact beyond
    · rw [samePlan]
      exact DenseTargetCache.placeTree_clear _ _ _ cache index placed atPlaced requests.length storage
        allocated row request.2 (active ▸ inBatch) inBatch own column behind beyond
  · rw [start, ← writeStart]
    exact stored rfl row inBatch node inside

/-- **Tree attention sees exactly the committed prefix and the node's ancestors.** For every batch of
trees whose masks show ancestors, and all committed prefix lengths that can be staged: the mask spans
the columns that the attention reads; a node's query sees its row's committed prefix and, behind the
start of the trees, the node and its ancestors; a padded query sees one column. A write of the staged
states succeeds in a layer that has room, and leaves a row's committed entries, zeros in the gap, and
the state of node `j` at the column at which the mask shows `j`. -/
theorem tree_visibility (parent : Nat → Nat → Option Nat)
    (shows : ∀ (row : Nat) (request : Tree × Nat), requests[row]? = some request →
      ShowsAncestors request.1 (parent row)) :
    ∃ mask, buildAdditiveMask (requests.map Prod.fst) (requests.map Prod.snd) prepared.treeStart
        (packTrees requests padTokenId).widths (packTrees requests padTokenId).treeWidth = .ok mask ∧
      mask.queries = (packTrees requests padTokenId).treeWidth ∧
      mask.columns = prepared.attentionWidth ∧
      (∀ (row : Nat) (request : Tree × Nat), requests[row]? = some request →
        RowVisible mask row request.1 request.2 prepared.treeStart (parent row)) ∧
      ∀ (index : Nat) (before : Layer E), cache.layers[index]? = some before →
        ∀ states : Storage E,
          (cache.capacity ≤ before.maxCacheLen →
            (before.storage.isSome = true → requests.length ≤ before.maxBatchSize) →
            ∃ updated, prepared.updateLayer index requests.length
              (packTrees requests padTokenId).treeWidth (packTrees requests padTokenId).treeWidth
              states = .ok updated) ∧
          ∀ updated, prepared.updateLayer index requests.length
              (packTrees requests padTokenId).treeWidth (packTrees requests padTokenId).treeWidth
              states = .ok updated →
            ∃ after, updated.layers[index]? = some after ∧
              ∀ (row : Nat) (request : Tree × Nat), requests[row]? = some request →
                RowStaged before after row request.2 prepared.treeStart
                  (packTrees requests padTokenId).treeWidth states := by
  obtain ⟨bias, built, rows⟩ := buildAdditiveMask_ok cache prepared requests padTokenId commitReserve
    staging
  obtain ⟨placed, active⟩ := DenseTargetCache.prepareTree_ok staging
  rw [List.length_map] at active
  obtain ⟨-, -, -, start, -, -, count, -, -⟩ := DenseTargetCache.placeTree_fields
    (packTrees requests padTokenId).treeWidth commitReserve (requests.map Prod.snd) cache
  rw [← placed] at start count
  refine ⟨_, built, rfl, rfl, fun row request listed => ⟨fun query inside column => ?_,
    fun query padded staged column => ?_⟩, fun index before atIndex states => ⟨fun fits room => ?_,
      fun updated written => ?_⟩⟩
  · rw [← fillRow_node (shows row request listed) query column inside, AdditiveMask.visible,
      rows row request listed]
    exact beq_iff_eq
  · rw [← fillRow_padded query column padded staged, AdditiveMask.visible, rows row request listed]
    exact beq_iff_eq
  · have present : index < cache.layers.length := (List.getElem?_eq_some_iff.mp atIndex).1
    have same (layer : Layer E) (again : cache.layers[index]? = some layer) : before = layer :=
      Option.some.inj (atIndex.symm.trans again)
    have done := DenseTargetCache.placeTree_update (packTrees requests padTokenId).treeWidth
      commitReserve (requests.map Prod.snd) cache index states present
      (fun layer again => same layer again ▸ fits)
      (fun layer again allocated => by
        rw [List.length_map]
        exact same layer again ▸ room (same layer again ▸ allocated))
    rwa [List.length_map, ← placed] at done
  · obtain ⟨layers, sameCount, rfl⟩ := DenseTargetCache.updateLayer_fields written
    have inside : index < layers.length := by
      rw [sameCount, count]
      exact (List.getElem?_eq_some_iff.mp atIndex).1
    refine ⟨layers[index], List.getElem?_eq_getElem inside, fun row request listed => ?_⟩
    exact rowStaged_of_update cache prepared requests padTokenId commitReserve staging written before
      _ atIndex (List.getElem?_eq_getElem inside) row request listed

end visibility

/-- A chain of two nodes and a root with two children, batched behind prefixes of different lengths:
the shorter row has a gap, and its tree is padded. -/
theorem tree_visibility_ragged :
    let chain : Tree × Nat := (⟨[7, 8], [[true, false], [true, true]], [0, 1], ⟨[[0, 1]], 2, by simp⟩⟩, 1)
    let wedge : Tree × Nat := (⟨[5, 6, 9], [[true, false, false], [true, true, false],
      [true, false, true]], [0, 1, 1], ⟨[[0, 1], [0, 2]], 2, by simp⟩⟩, 3)
    let cache : DenseTargetCache Int := DenseTargetCache.new false 1 2 4 8 3
    ∃ mask, buildAdditiveMask [chain.1, wedge.1] [1, 3] 5 [2, 3] 3 = .ok mask ∧
      mask.queries = 3 ∧ mask.columns = 8 ∧
      RowVisible mask 0 chain.1 1 5 (fun node => if node = 1 then some 0 else none) ∧
      RowVisible mask 1 wedge.1 3 5 (fun node => if node = 0 then none else some 0) ∧
      ∀ before, cache.layers[0]? = some before → ∀ states : Storage Int, ∃ updated after,
        (cache.placeTree 3 [1, 3] 2).updateLayer 0 2 3 3 states = .ok updated ∧
          updated.layers[0]? = some after ∧ RowStaged before after 0 1 5 3 states ∧
          RowStaged before after 1 3 5 3 states := by
  intro chain wedge cache
  let parent (row node : Nat) : Option Nat :=
    if row = 0 then if node = 1 then some 0 else none else if node = 0 then none else some 0
  have staging : cache.prepareTree (packTrees [chain, wedge] 0).treeWidth
      ([chain, wedge].map Prod.snd) 2 = .ok (cache.placeTree 3 [1, 3] 2) := rfl
  have shows : ∀ (row : Nat) (request : Tree × Nat), [chain, wedge][row]? = some request →
      ShowsAncestors request.1 (parent row) := by
    intro row request listed
    match row, listed with
    | 0, listed =>
      obtain rfl := Option.some.inj listed
      exact .of_rows (by decide) (by decide)
    | 1, listed =>
      obtain rfl := Option.some.inj listed
      exact .of_rows (by decide) (by decide)
    | row + 2, listed => simp at listed
  obtain ⟨mask, built, queries, columns, visible, writes⟩ :=
    tree_visibility cache _ [chain, wedge] 0 2 staging parent shows
  refine ⟨mask, built, queries, columns, visible 0 chain rfl, visible 1 wedge rfl,
    fun before atIndex states => ?_⟩
  obtain rfl := Option.some.inj atIndex
  obtain ⟨success, staged⟩ := writes 0 _ atIndex states
  obtain ⟨updated, written⟩ := success (by decide) (by decide)
  obtain ⟨after, read, rows⟩ := staged updated written
  exact ⟨updated, after, written, read, rows 0 chain rfl, rows 1 wedge rfl⟩

end SpecBlock.Batch
