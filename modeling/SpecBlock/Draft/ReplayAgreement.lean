import SpecBlock.Draft.GraphReplay

/-!
# When a replay equals the eager forward

A replay copies the current request's cells and clears what lies behind them, so that nothing of
an earlier replay is left in the static buffers. What a replay adds to the eager forward is the
bucket's padding: cells of zeros behind the cross cells. The masks of a call shut them, and the
merged attention and the one over several positions honour these masks. The three-part attention
of the shipped options is not given the mask and counts the whole bucket as cross cells.

A call therefore sees the right keys if and only if its cross count fills its bucket or its
attention is a masked one, its positions lie in the table that its graph rotates by, and the tensors
its graph was captured with have not been dropped. A run whose calls are such returns what the
eager forwards return and leaves the same cache: neither grows the rotation tables in them, so that
the tables are alike whenever an eager forward follows.
-/

namespace SpecBlock.Draft

variable {V : Type} {net : DraftNet V}

/-! ## Buckets and copies -/

theorem bucketFor_holds {buckets : List Nat} {count : Nat} (within : count ≤ buckets.getLastD 0) :
    count ≤ bucketFor buckets count := by
  unfold bucketFor
  cases found : buckets.find? (fun bucket => count ≤ bucket) with
  | none => simpa using within
  | some bucket =>
    have holds := List.find?_some found
    simpa using holds

theorem bucketFor_positive (count : Nat) (buckets : List Nat) (positive : ∀ bucket ∈ buckets, 0 < bucket)
    (nonempty : 0 < buckets.getLastD 0) : 0 < bucketFor buckets count := by
  unfold bucketFor
  cases found : buckets.find? (fun bucket => count ≤ bucket) with
  | none => simpa using nonempty
  | some bucket => exact positive bucket (List.mem_of_find?_eq_some found)

theorem firstCells_length (layer : StreamLayer (HeadCell V)) {count : Nat}
    (within : count ≤ layer.cells.length) : (net.firstCells layer count).length = count := by
  rw [DraftNet.firstCells, List.length_map, List.length_take, Nat.min_eq_left within]

variable (net) in
/-- A static buffer of a bucket after a copy: the source's cells, and zeros behind them. -/
theorem copyCross_cells (cells : List (HeadCell V)) (source : Option (List (HeadCell V)))
    (given : source.getD [] = cells) (ccBucket : Nat) (within : cells.length ≤ ccBucket)
    (held : Nat → HeadCell V) :
    (List.range ccBucket).map (copyCross net source cells.length held) =
      cells ++ List.replicate (ccBucket - cells.length) net.zeroCell := by
  have copied (slot : Nat) : copyCross net source cells.length held slot =
      cells.getD slot net.zeroCell := by
    cases source with
    | none =>
      obtain rfl : [] = cells := given
      simp [copyCross, clearFrom]
    | some given' =>
      obtain rfl : given' = cells := given
      rw [copyCross, clearFrom_writeBelow]
      by_cases below : slot < given'.length
      · simp only [below, if_true]
      · simp [below]
  apply List.ext_getElem
  · simp only [List.length_map, List.length_range, List.length_append, List.length_replicate]
    omega
  · intro slot inside _
    rw [List.length_map, List.length_range] at inside
    rw [List.getElem_map, List.getElem_range, copied, List.getElem_append]
    by_cases below : slot < cells.length
    · simp [below]
    · simp [below]

theorem crossSlices_cells (cache : DraftCache V) {cc : Nat} (layer : Nat)
    (within : cc ≤ (cache.layer layer).count) :
    (crossSlices net cache cc layer).getD [] = net.firstCells (cache.layer layer) cc := by
  unfold crossSlices
  split_ifs with given
  · rfl
  · rcases Nat.eq_zero_or_pos cc with rfl | positive
    · rfl
    · have fits := cache.fits layer
      have noBuffer : (cache.layer layer).buffer = none := by
        simpa [positive] using given
      simp [StreamLayer.cells, noBuffer] at fits
      omega

variable (net) in
theorem effectiveCrossCount_le (cache : DraftCache V) (layer : Nat) :
    effectiveCrossCount net cache ≤ (cache.layer layer).count := by
  rw [cache.alike layer, effectiveCrossCount]
  split_ifs <;> omega

variable (net) in
theorem firstCells_cache (cache : DraftCache V) {cc : Nat} (layer : Nat)
    (within : cc ≤ (cache.layer layer).count) :
    (net.firstCells (cache.layer layer) cc).length = cc :=
  firstCells_length _ (within.trans (cache.fits layer))

/-! ## Positions in a rotation table -/

theorem inTable_iff (ropeLen size : Nat) (posIds : Nat → Nat) :
    DraftNet.inTable ropeLen size posIds = true ↔ ∀ slot < size, posIds slot < ropeLen := by
  simp [DraftNet.inTable]

theorem inTable_posIds (ropeLen positionId : Nat) :
    DraftNet.inTable ropeLen net.K (DraftNet.posIds positionId) = true ↔
      positionId + net.K < ropeLen := by
  have slots := net.slots
  rw [inTable_iff]
  constructor
  · intro every
    have last : positionId + 1 + (net.K - 1) < ropeLen := every (net.K - 1) (by omega)
    omega
  · intro last slot inside
    show positionId + 1 + slot < ropeLen
    omega

theorem inTable_batchPosIds (ropeLen startPosition : Nat) {N : Nat} (positive : 0 < N) :
    DraftNet.inTable ropeLen (N * net.K) (net.batchPosIds startPosition) = true ↔
      startPosition + N + net.K ≤ ropeLen := by
  have slots := net.slots
  rw [inTable_iff]
  constructor
  · intro every
    obtain ⟨before, rfl⟩ : ∃ before, N = before + 1 := ⟨N - 1, by omega⟩
    have inside : net.K * before + (net.K - 1) < (before + 1) * net.K := by
      rw [Nat.succ_mul, Nat.mul_comm before]
      omega
    have last := every _ inside
    have quotient : (net.K * before + (net.K - 1)) / net.K = before := by
      rw [Nat.mul_add_div slots, Nat.div_eq_of_lt (by omega), Nat.add_zero]
    have remainder : (net.K * before + (net.K - 1)) % net.K = net.K - 1 := by
      rw [Nat.mul_add_mod, Nat.mod_eq_of_lt (by omega)]
    simp only [DraftNet.batchPosIds, quotient, remainder] at last
    omega
  · intro last slot inside
    have position : slot / net.K < N := Nat.div_lt_of_lt_mul (by rwa [Nat.mul_comm])
    have within : slot % net.K < net.K := Nat.mod_lt _ slots
    show startPosition + 1 + slot / net.K + slot % net.K < ropeLen
    omega

/-! ## Sights over padded cells -/

section padded

variable {cross cells ttt : Nat → List (HeadCell V)} {tttMask fullMask : Nat → Bool} {count : Nat}

/-- Attention of a single position over padded cross cells sees the cells without the padding, if
the call's mask shuts the padding and there is none where the mask is not read. -/
theorem singleSight_padded (padding : Nat)
    (padded : ∀ layer, cross layer = cells layer ++ List.replicate padding net.zeroCell)
    (counted : ∀ layer, (cells layer).length = count)
    (full : net.headDim = 128 → padding = 0)
    (first : ∀ index, index < count + padding → fullMask index = decide (index < count))
    (behind : ∀ layer index, index < (ttt layer).length →
      fullMask (count + padding + index) = tttMask index) :
    net.singleSight cross ttt tttMask fullMask = net.threePartSight cells ttt tttMask := by
  have lengths (layer : Nat) : (cross layer).length = count + padding := by
    rw [padded, List.length_append, counted, List.length_replicate]
  have taken : (fun layer => (cross layer).take count) = cells := by
    funext layer
    rw [padded, ← counted layer, List.take_left]
  unfold DraftNet.singleSight
  split_ifs with wide
  · have same : cross = cells := by
      funext layer
      rw [padded, full wide, List.replicate_zero, List.append_nil]
    rw [same]
  · rw [DraftNet.mergedSight_threePart tttMask count, taken]
    · intro layer
      rw [lengths]
      omega
    · intro layer index inside
      rw [lengths] at inside
      exact first index inside
    · intro layer index inside
      rw [lengths]
      exact behind layer index inside

/-- A three-part attention over padded cross cells that sees the right keys has no padding. -/
theorem padding_of_right (padding : Nat) (posIds : Nat → Nat) (hidden : Nat → V)
    (wide : net.headDim = 128)
    (padded : ∀ layer, cross layer = cells layer ++ List.replicate padding net.zeroCell)
    (right : net.SeesRight net.K (net.rightSight cells ttt tttMask)
      (net.forwardRow (net.singleSight cross ttt tttMask fullMask) posIds hidden)) :
    padding = 0 := by
  have seen := right 0 0 0 net.layers net.slots net.heads
  rw [DraftNet.forwardRow_seen, DraftNet.singleSight, if_pos wide,
    DraftNet.threePartSight_right 0 _ net.slots] at seen
  have sizes := congrArg List.length seen
  simp only [DraftNet.rightSight, padded, List.length_append, List.length_map,
    List.length_replicate] at sizes
  omega

/-- A forward under the three-part attention sees the right keys. -/
theorem threePart_right (posIds : Nat → Nat) (hidden : Nat → V) :
    net.SeesRight net.K (net.rightSight cells ttt tttMask)
      (net.forwardRow (net.threePartSight cells ttt tttMask) posIds hidden) := by
  intro layer slot head _ inside _
  rw [DraftNet.forwardRow_seen, DraftNet.threePartSight_right head _ inside]

end padded

/-! ## What a call should do -/

/-- The sizes of a call resolve to a bucket. -/
def Resolves (net : DraftNet V) (state : GraphState net) : Call V → Prop
  | .run inputs => effectiveCrossCount net state.cache ≤ ccBuckets.getLastD 0 ∧
      inputs.N ≤ bBuckets.getLastD 0
  | .runBlock1 _ => state.cache.count ≤ b1CcBuckets.getLastD 0
  | .runUpdateCache _ => state.cache.count ≤ b1CcBuckets.getLastD 0

/-- Every real row of a replay sees the first cross slots of the current request, the cached slots
its mask allows and its own causal slots, and nothing else. -/
def SeesReply (net : DraftNet V) (cache : DraftCache V) : Call V → Reply V → Prop
  | .run inputs, .done rows => rows.length = inputs.N ∧ ∀ row forward, rows[row]? = .some forward →
      net.SeesRight net.K (net.rightSight
        (fun layer => net.firstCells (cache.layer layer) (effectiveCrossCount net cache))
        (fun layer => (List.range inputs.tttCount).map (inputs.tttCache layer row))
        (inputs.tttMask row)) forward
  | .runBlock1 _, .done rows => ∃ forward, rows = [forward] ∧
      net.SeesRight net.K (net.rightSight
        (fun layer => net.firstCells (cache.layer layer) cache.count) (fun _ => [])
        (fun _ => false)) forward
  | .runUpdateCache inputs, .done rows => ∃ forward, rows = [forward] ∧
      net.SeesRight (inputs.N * net.K) (net.rightBatchSight inputs.N
        (fun layer => net.firstCells (cache.layer layer) cache.count)) forward
  | _, _ => False

/-- The key of a call of `run`. -/
def runKey (net : DraftNet V) (state : GraphState net) (inputs : RunInputs V) : Nat × Nat × Nat :=
  (bucketFor bBuckets inputs.N, bucketFor ccBuckets (effectiveCrossCount net state.cache),
    inputs.tttCount)

/-- Three-part attentions fill their bucket, the positions are in the table that the graph rotates by,
and no tensor the call's graph was captured with has been dropped. Graphs of a single position rotate by
the fused kernel's table if there is one. -/
def Fits (net : DraftNet V) (state : GraphState net) : Call V → Prop
  | .run inputs =>
    let cc := effectiveCrossCount net state.cache
    (net.headDim = 128 → bucketFor ccBuckets cc = cc) ∧
      inputs.positionId + net.K < state.tensors.readableRows net.fusedRope ∧
      ∀ graph, state.graphs (runKey net state inputs) = .some graph →
        state.tensors.HoldsRope net.fusedRope graph.ropeTable
  | .runBlock1 inputs =>
    let cc := state.cache.count
    (net.headDim = 128 → bucketFor b1CcBuckets cc = cc) ∧
      inputs.positionId + net.K < state.tensors.readableRows net.fusedRope ∧
      ∀ graph, state.b1Graphs (bucketFor b1CcBuckets cc) = .some graph →
        state.tensors.HoldsRope net.fusedRope graph.ropeTable ∧
        ∀ mask, graph.mask = .some mask → state.tensors.masks.Holds mask
  | .runUpdateCache inputs =>
    inputs.startPosition + inputs.N + net.K ≤ net.ropeMaxPos ∧
      ∀ graph, state.updGraphs (inputs.N, bucketFor b1CcBuckets state.cache.count) = .some graph →
        state.tensors.HoldsRope false graph.ropeTable ∧
        ∀ mask, graph.mask = .some mask → state.tensors.masks.Holds mask

/-! ## Lookups of rotation tables -/

section tables

variable {ropeMaxPos : Nat} (tensors : LazyTensors ropeMaxPos)

/-- A table that was just looked up for no more rows than there were at first is held, and looking it up
changes neither the rows nor the masks. -/
theorem lookupRope_spec (fused : Bool) :
    (tensors.lookupRope fused ropeMaxPos).2.HoldsRope fused (tensors.lookupRope fused ropeMaxPos).1 ∧
      (tensors.lookupRope fused ropeMaxPos).2.ropeRows = tensors.ropeRows ∧
      (tensors.lookupRope fused ropeMaxPos).2.masks = tensors.masks := by
  have long : ¬ tensors.ropeRows < ropeMaxPos := Nat.not_lt.mpr tensors.long
  cases fused with
  | false =>
    have same : tensors.grow ropeMaxPos = tensors := dif_neg long
    simp only [LazyTensors.lookupRope, Bool.false_eq_true, if_false, LazyTensors.lookupPlain, same]
    cases held : tensors.castCopy with
    | none => exact ⟨rfl, rfl, rfl⟩
    | some copy => exact ⟨held, rfl, rfl⟩
  | true =>
    simp only [LazyTensors.lookupRope, if_true, LazyTensors.lookupFused]
    cases held : tensors.joined with
    | none => exact ⟨rfl, rfl, rfl⟩
    | some table =>
      dsimp only
      rw [if_neg long]
      exact ⟨held, rfl, rfl⟩

/-- The rows that can be read go by the rows of the base tables. -/
theorem readableRows_congr {other : LazyTensors ropeMaxPos} (rows : other.ropeRows = tensors.ropeRows)
    (fused : Bool) : other.readableRows fused = tensors.readableRows fused := by
  rw [LazyTensors.readableRows, LazyTensors.readableRows, rows]

/-- No fewer rows can be read than there were at first, and no more than there are. -/
theorem readableRows_le (fused : Bool) : tensors.readableRows fused ≤ tensors.ropeRows := by
  cases fused with
  | false => exact tensors.long
  | true => exact Nat.le_refl _

theorem use_ropeRows (uses : List EagerUse) :
    (uses.foldl LazyTensors.use tensors).ropeRows = uses.foldl grownRows tensors.ropeRows := by
  induction uses generalizing tensors with
  | nil => rfl
  | cons use rest ih =>
    rw [List.foldl_cons, List.foldl_cons, ih]
    congr 1
    cases use with
    | mask N => rfl
    | plainRope ropeLen =>
      have grown : (tensors.grow ropeLen).ropeRows = grownRows tensors.ropeRows (.plainRope ropeLen) := by
        rw [LazyTensors.grow, grownRows]
        split_ifs <;> rfl
      simp only [LazyTensors.use, LazyTensors.lookupPlain]
      cases (tensors.grow ropeLen).castCopy with
      | none => exact grown
      | some copy => exact grown
    | fusedRope ropeLen =>
      simp only [LazyTensors.use, LazyTensors.lookupFused, grownRows]
      cases tensors.joined with
      | none => rfl
      | some table =>
        dsimp only
        split_ifs <;> rfl

end tables

/-! ## Calls of `run` -/

section run

variable (slices : Nat → Option (List (HeadCell V))) (cc bBucket ccBucket : Nat)

/-- The full mask `run` builds for a row. -/
def runMask (cc ccBucket : Nat) (tttMask : Nat → Bool) : Nat → Bool :=
  fun index => if index < cc then true else if index < ccBucket then false
    else tttMask (index - ccBucket)

/-- A real row of a filled graph computes on the call's own inputs. -/
theorem fill_row (graph : RunGraph V) (inputs : RunInputs V) {row : Nat}
    (inside : row < inputs.N) :
    (graph.fill net slices cc ccBucket inputs).row net ccBucket inputs.tttCount row =
      net.forwardRow
        (net.singleSight
          (fun layer => (List.range ccBucket).map
            (copyCross net (slices layer) cc (graph.cross layer row)))
          (fun layer => (List.range inputs.tttCount).map (inputs.tttCache layer row))
          (inputs.tttMask row) (runMask cc ccBucket (inputs.tttMask row)))
        (DraftNet.posIds inputs.positionId)
        (net.inputDraft (inputs.hidden row) (inputs.inputIds row)) := by
  simp only [RunGraph.row, RunGraph.fill, clearFrom_writeBelow, inside, if_true]
  rfl

theorem take_rows {β : Type} (value : Nat → β) {N : Nat} (bucket : N ≤ bBucket) :
    ((List.range bBucket).map value).take N = (List.range N).map value := by
  rw [← List.map_take, List.take_range, Nat.min_eq_left bucket]

variable (net) in
/-- A filled graph of `run` is replayed if its table is still there and its positions lie in it. -/
theorem replay_eq (graph : RunGraph V) (tensors : LazyTensors net.ropeMaxPos) (inputs : RunInputs V)
    (bucket : inputs.N ≤ bBucket) :
    (graph.fill net slices cc ccBucket inputs).replay net tensors bBucket ccBucket
        inputs.tttCount inputs.N =
      if tensors.HoldsRope net.fusedRope graph.ropeTable ∧
          inputs.positionId + net.K < tensors.readableRows net.fusedRope then
        .done ((List.range inputs.N).map
          ((graph.fill net slices cc ccBucket inputs).row net ccBucket inputs.tttCount))
      else .undefined := by
  have tables : ((List.range bBucket).all (fun row =>
      DraftNet.inTable (tensors.readableRows net.fusedRope) net.K
        ((graph.fill net slices cc ccBucket inputs).posIds row))) = true ↔
      inputs.positionId + net.K < tensors.readableRows net.fusedRope := by
    rw [← inTable_posIds, List.all_eq_true]
    constructor
    · intro every
      have positive : 0 < bBucket := Nat.lt_of_lt_of_le inputs.rows bucket
      exact every 0 (List.mem_range.mpr positive)
    · intro inside _ _
      exact inside
  unfold RunGraph.replay
  rw [take_rows _ _ bucket]
  exact if_congr (and_congr Iff.rfl tables) rfl rfl

end run

variable (net) in
theorem copied_cells (cache : DraftCache V) {cc ccBucket : Nat} (layer : Nat)
    (live : cc ≤ (cache.layer layer).count) (within : cc ≤ ccBucket) (held : Nat → HeadCell V) :
    (List.range ccBucket).map (copyCross net (crossSlices net cache cc layer) cc held) =
      net.firstCells (cache.layer layer) cc ++ List.replicate (ccBucket - cc) net.zeroCell := by
  have counted := firstCells_cache net cache layer live
  have copied := copyCross_cells net (net.firstCells (cache.layer layer) cc) _
    (crossSlices_cells cache layer live) ccBucket (by rwa [counted]) held
  rwa [counted] at copied

theorem runMask_behind {cc ccBucket : Nat} (within : cc ≤ ccBucket) (tttMask : Nat → Bool)
    (index : Nat) : runMask cc ccBucket tttMask (ccBucket + index) = tttMask index := by
  have notCross : ¬ ccBucket + index < cc := by omega
  have notPadding : ¬ ccBucket + index < ccBucket := by omega
  simp only [runMask, notCross, notPadding, if_false, Nat.add_sub_cancel_left]

theorem runMask_first {cc ccBucket index : Nat} (tttMask : Nat → Bool) (inside : index < ccBucket) :
    runMask cc ccBucket tttMask index = decide (index < cc) := by
  by_cases below : index < cc
  · simp only [runMask, below, if_true, decide_true]
  · simp only [runMask, below, inside, if_true, if_false, decide_false]

theorem eagerSight_eq (cache : DraftCache V) {cc : Nat}
    (live : ∀ layer, cc ≤ (cache.layer layer).count) (cells ttt : Nat → List (HeadCell V))
    (given : ∀ layer, cells layer = net.firstCells (cache.layer layer) cc)
    (tttMask fullMask : Nat → Bool)
    (first : ∀ index, index < cc → fullMask index = true)
    (behind : ∀ layer index, index < (ttt layer).length →
      fullMask (cc + index) = tttMask index) :
    net.singleSight cells ttt tttMask fullMask =
      net.threePartSight (fun layer => net.firstCells (cache.layer layer) cc) ttt tttMask := by
  apply singleSight_padded 0
  · intro layer
    rw [given, List.replicate_zero, List.append_nil]
  · intro layer
    exact firstCells_cache net cache layer (live layer)
  · exact fun _ => rfl
  · intro index inside
    rw [first index inside]
    exact (decide_eq_true inside).symm
  · exact behind

/-- A row a call of `run` replays. -/
def replayedRow (net : DraftNet V) (state : GraphState net) (inputs : RunInputs V) (row : Nat) :
    RowForward V :=
  ((state.runGraph (runKey net state inputs)).1.fill net
    (crossSlices net state.cache (effectiveCrossCount net state.cache))
    (effectiveCrossCount net state.cache)
    (bucketFor ccBuckets (effectiveCrossCount net state.cache)) inputs).row net
      (bucketFor ccBuckets (effectiveCrossCount net state.cache)) inputs.tttCount row

/-- The tensors a call of `run` reads are there if that of its captured graph is, and its positions lie
in the table; getting the graph leaves the rows. -/
theorem runGraph_intact (state : GraphState net) (key : Nat × Nat × Nat) (position : Nat) :
    ((state.runGraph key).2.HoldsRope net.fusedRope (state.runGraph key).1.ropeTable ∧
        position < (state.runGraph key).2.readableRows net.fusedRope ↔
      position < state.tensors.readableRows net.fusedRope ∧ ∀ graph, state.graphs key = some graph →
        state.tensors.HoldsRope net.fusedRope graph.ropeTable) ∧
      (state.runGraph key).2.ropeRows = state.tensors.ropeRows := by
  unfold GraphState.runGraph
  cases held : state.graphs key with
  | none =>
    obtain ⟨holds, rows, -⟩ := lookupRope_spec state.tensors net.fusedRope
    refine ⟨?_, rows⟩
    simp only [capturedRope, capture, holds, readableRows_congr state.tensors rows, true_and,
      reduceCtorEq, false_imp_iff, implies_true, and_true]
  | some graph => simp [and_comm]

theorem run_reply (state : GraphState net) (inputs : RunInputs V)
    (resolves : Resolves net state (.run inputs)) :
    (state.call (.run inputs)).1 =
      if inputs.positionId + net.K < state.tensors.readableRows net.fusedRope ∧
          ∀ graph, state.graphs (runKey net state inputs) = some graph →
            state.tensors.HoldsRope net.fusedRope graph.ropeTable then
        .done ((List.range inputs.N).map (replayedRow net state inputs))
      else .undefined := by
  obtain ⟨count, rows⟩ := resolves
  have accepted : ¬ (ccBuckets.getLastD 0 < effectiveCrossCount net state.cache ∨
      bBuckets.getLastD 0 < inputs.N) := by omega
  have replayed := replay_eq net
    (crossSlices net state.cache (effectiveCrossCount net state.cache))
    (effectiveCrossCount net state.cache) (bucketFor bBuckets inputs.N)
    (bucketFor ccBuckets (effectiveCrossCount net state.cache))
    (state.runGraph (runKey net state inputs)).1
    (state.runGraph (runKey net state inputs)).2 inputs (bucketFor_holds rows)
  have intact := (runGraph_intact state (runKey net state inputs) (inputs.positionId + net.K)).1
  rw [GraphState.call, GraphState.run, if_neg accepted]
  exact replayed.trans (if_congr intact rfl rfl)

section replayedRow

variable (state : GraphState net) (inputs : RunInputs V)
    (resolves : Resolves net state (.run inputs)) {row : Nat} (inside : row < inputs.N)

/-- The cached cells of a row. -/
def rowTtt (inputs : RunInputs V) (row : Nat) : Nat → List (HeadCell V) :=
  fun layer => (List.range inputs.tttCount).map (inputs.tttCache layer row)

include resolves inside in
theorem replayedRow_eq : ∃ cross, (∀ layer, cross layer =
      net.firstCells (state.cache.layer layer) (effectiveCrossCount net state.cache) ++
        List.replicate (bucketFor ccBuckets (effectiveCrossCount net state.cache) -
          effectiveCrossCount net state.cache) net.zeroCell) ∧
    replayedRow net state inputs row = net.forwardRow
      (net.singleSight cross (rowTtt inputs row) (inputs.tttMask row)
        (runMask (effectiveCrossCount net state.cache)
          (bucketFor ccBuckets (effectiveCrossCount net state.cache)) (inputs.tttMask row)))
      (DraftNet.posIds inputs.positionId)
      (net.inputDraft (inputs.hidden row) (inputs.inputIds row)) := by
  obtain ⟨count, rows⟩ := resolves
  refine ⟨_, ?_, fill_row _ _ _ (state.runGraph (runKey net state inputs)).1 inputs inside⟩
  intro layer
  exact copied_cells net state.cache layer (effectiveCrossCount_le net state.cache layer)
    (bucketFor_holds count) _

include resolves inside in
/-- A replayed row whose three-part attention has no padding. -/
theorem replayedRow_right (full : net.headDim = 128 →
      bucketFor ccBuckets (effectiveCrossCount net state.cache) =
        effectiveCrossCount net state.cache) :
    replayedRow net state inputs row = net.forwardRow
      (net.threePartSight (fun layer => net.firstCells (state.cache.layer layer)
        (effectiveCrossCount net state.cache)) (rowTtt inputs row) (inputs.tttMask row))
      (DraftNet.posIds inputs.positionId)
      (net.inputDraft (inputs.hidden row) (inputs.inputIds row)) := by
  obtain ⟨cross, padded, row_eq⟩ := replayedRow_eq state inputs resolves inside
  have within := bucketFor_holds resolves.1
  rw [row_eq, singleSight_padded _ padded]
  · intro layer
    exact firstCells_cache net state.cache layer (effectiveCrossCount_le net state.cache layer)
  · intro wide
    rw [full wide, Nat.sub_self]
  · intro index below
    rw [Nat.add_sub_cancel' within] at below
    exact runMask_first _ below
  · intro layer index _
    rw [Nat.add_sub_cancel' within]
    exact runMask_behind within _ index

end replayedRow

/-- A call of `run` sees the right keys if and only if it fits. -/
theorem run_sees_iff (state : GraphState net) (inputs : RunInputs V)
    (resolves : Resolves net state (.run inputs)) :
    SeesReply net state.cache (.run inputs) (state.call (.run inputs)).1 ↔
      Fits net state (.run inputs) := by
  have within := bucketFor_holds resolves.1
  rw [run_reply state inputs resolves]
  constructor
  · intro sees
    split_ifs at sees with intact
    · obtain ⟨_, rows⟩ := sees
      refine ⟨fun wide => ?_, intact⟩
      obtain ⟨cross, padded, row_eq⟩ := replayedRow_eq state inputs resolves inputs.rows
      have right := rows 0 (replayedRow net state inputs 0) (by simp [inputs.rows])
      rw [row_eq] at right
      have none := padding_of_right _ _ _ wide padded right
      omega
    · exact sees.elim
  · rintro ⟨full, intact⟩
    rw [if_pos intact]
    refine ⟨by simp, ?_⟩
    intro row forward found
    obtain ⟨inside, rfl⟩ : row < inputs.N ∧ replayedRow net state inputs row = forward := by
      simpa [List.getElem?_map, List.getElem?_range, Option.map_eq_some_iff,
        List.getElem?_eq_some_iff] using found
    rw [replayedRow_right state inputs resolves inside full]
    exact threePart_right _ _

/-! ## Calls for one row -/

theorem intact_iff (graph : RowGraph V) (cache : DraftCache V) (cc ccBucket size : Nat)
    (hidden3h : Nat → V) (inputIds posIds : Nat → Nat) (tensors : LazyTensors net.ropeMaxPos)
    (fused : Bool) :
    (graph.fill net cache cc ccBucket hidden3h inputIds posIds).intact net tensors fused size = true ↔
      (tensors.HoldsRope fused graph.ropeTable ∧
        ∀ mask, graph.mask = some mask → tensors.masks.Holds mask) ∧
      DraftNet.inTable (tensors.readableRows fused) size posIds = true := by
  rw [RowGraph.intact, Bool.and_eq_true, Bool.and_eq_true, decide_eq_true_eq]
  refine and_congr (and_congr Iff.rfl ?_) Iff.rfl
  rw [show (graph.fill net cache cc ccBucket hidden3h inputIds posIds).mask = graph.mask from rfl]
  cases graph.mask with
  | none => simp
  | some mask => simp

theorem crossMask_first (graph : RowGraph V) (cache : DraftCache V) (cc : Nat)
    (hidden3h : Nat → V) (inputIds posIds : Nat → Nat) {ccBucket index : Nat}
    (inside : index < ccBucket) :
    (graph.fill net cache cc ccBucket hidden3h inputIds posIds).crossMask index =
      decide (index < cc) := by
  by_cases below : index < cc
  · simp only [RowGraph.fill, below, if_true, decide_true]
  · simp only [RowGraph.fill, below, inside, if_true, if_false, decide_false]

theorem count_live (cache : DraftCache V) (layer : Nat) :
    cache.count ≤ (cache.layer layer).count := by
  rw [cache.count_eq, cache.alike layer]

section block1

variable (state : GraphState net) (inputs : Block1Inputs V)

/-- The graph of `run_block1` with the call's inputs. -/
def block1Filled (net : DraftNet V) (state : GraphState net) (inputs : Block1Inputs V) :
    RowGraph V :=
  state.block1Graph.1.fill net state.cache state.cache.count
    (bucketFor b1CcBuckets state.cache.count) (fun _ => inputs.hidden3h) (fun _ => inputs.inputId)
    (DraftNet.posIds inputs.positionId)

/-- The row a call of `run_block1` replays. -/
def replayedBlock1 (net : DraftNet V) (state : GraphState net) (inputs : Block1Inputs V) :
    RowForward V :=
  (block1Filled net state inputs).block1Row net (bucketFor b1CcBuckets state.cache.count)

/-- The tensors a call of `run_block1` reads are there if those of its captured graph are, and its
positions lie in the table; getting the graph leaves the rows. -/
theorem block1_intact : ((block1Filled net state inputs).intact net state.block1Graph.2 net.fusedRope
        net.K = true ↔
      inputs.positionId + net.K < state.tensors.readableRows net.fusedRope ∧
      ∀ graph, state.b1Graphs (bucketFor b1CcBuckets state.cache.count) = some graph →
        state.tensors.HoldsRope net.fusedRope graph.ropeTable ∧
        ∀ mask, graph.mask = some mask → state.tensors.masks.Holds mask) ∧
    state.block1Graph.2.ropeRows = state.tensors.ropeRows := by
  rw [block1Filled, intact_iff, inTable_posIds, GraphState.block1Graph]
  cases held : state.b1Graphs (bucketFor b1CcBuckets state.cache.count) with
  | none =>
    obtain ⟨holds, rows, -⟩ := lookupRope_spec state.tensors net.fusedRope
    refine ⟨?_, rows⟩
    simp only [capturedRope, captureRow, holds, readableRows_congr state.tensors rows, true_and,
      reduceCtorEq, false_imp_iff, implies_true, and_true]
  | some graph => simp [and_comm]

theorem block1_call (resolves : Resolves net state (.runBlock1 inputs)) : ∃ following,
    following.tensors.ropeRows = state.tensors.ropeRows ∧ state.call (.runBlock1 inputs) =
      if (block1Filled net state inputs).intact net state.block1Graph.2 net.fusedRope net.K = true then
        (.done [replayedBlock1 net state inputs], { following with
          cache := state.cache.scatter state.cache.count net.K
            (fun layer slot => net.repeatKv ((replayedBlock1 net state inputs).keys layer slot))
            state.cache.count_eq })
      else (.undefined, following) := by
  have accepted : ¬ b1CcBuckets.getLastD 0 < state.cache.count := Nat.not_lt.mpr resolves
  refine ⟨{ state with
    b1Graphs := Function.update state.b1Graphs (bucketFor b1CcBuckets state.cache.count)
      (some (block1Filled net state inputs))
    tensors := state.block1Graph.2 }, (block1_intact state inputs).2, ?_⟩
  rw [GraphState.call, GraphState.runBlock1, if_neg accepted]
  rfl

variable {state inputs}

theorem replayedBlock1_eq (resolves : Resolves net state (.runBlock1 inputs)) :
    ∃ cross, (∀ layer, cross layer =
      net.firstCells (state.cache.layer layer) state.cache.count ++
        List.replicate (bucketFor b1CcBuckets state.cache.count - state.cache.count)
          net.zeroCell) ∧
    replayedBlock1 net state inputs = net.forwardRow
      (net.singleSight cross (fun _ => []) (fun _ => false)
        (block1Filled net state inputs).crossMask)
      (DraftNet.posIds inputs.positionId) (net.inputTarget inputs.hidden3h inputs.inputId) := by
  refine ⟨_, ?_, rfl⟩
  intro layer
  exact copied_cells net state.cache layer (count_live state.cache layer) (bucketFor_holds resolves) _

/-- The replayed row whose three-part attention has no padding. -/
theorem replayedBlock1_right (resolves : Resolves net state (.runBlock1 inputs))
    (full : net.headDim = 128 →
      bucketFor b1CcBuckets state.cache.count = state.cache.count) :
    replayedBlock1 net state inputs = net.forwardRow
      (net.threePartSight (fun layer => net.firstCells (state.cache.layer layer) state.cache.count)
        (fun _ => []) (fun _ => false))
      (DraftNet.posIds inputs.positionId) (net.inputTarget inputs.hidden3h inputs.inputId) := by
  obtain ⟨cross, padded, row_eq⟩ := replayedBlock1_eq resolves
  have within := bucketFor_holds resolves
  rw [row_eq, singleSight_padded _ padded]
  · intro layer
    exact firstCells_cache net state.cache layer (count_live state.cache layer)
  · intro wide
    rw [full wide, Nat.sub_self]
  · intro index below
    rw [Nat.add_sub_cancel' within] at below
    exact crossMask_first _ _ _ _ _ _ below
  · intro _ index inside
    exact absurd inside (Nat.not_lt_zero index)

/-- A call of `run_block1` sees the right keys if and only if it fits. -/
theorem block1_sees_iff (resolves : Resolves net state (.runBlock1 inputs)) :
    SeesReply net state.cache (.runBlock1 inputs) (state.call (.runBlock1 inputs)).1 ↔
      Fits net state (.runBlock1 inputs) := by
  obtain ⟨following, -, ended⟩ := block1_call state inputs resolves
  have within := bucketFor_holds resolves
  have intact := (block1_intact state inputs).1
  rw [ended]
  split_ifs with whole
  · constructor
    · rintro ⟨forward, single, right⟩
      obtain rfl : replayedBlock1 net state inputs = forward := by simpa using single
      refine ⟨fun wide => ?_, intact.mp whole⟩
      obtain ⟨cross, padded, row_eq⟩ := replayedBlock1_eq resolves
      rw [row_eq] at right
      have none := padding_of_right _ _ _ wide padded right
      omega
    · rintro ⟨full, _⟩
      refine ⟨_, rfl, ?_⟩
      rw [replayedBlock1_right resolves full]
      exact threePart_right _ _
  · constructor
    · exact fun sees => sees.elim
    · exact fun fits => absurd (intact.mpr fits.2) whole

end block1

section update

variable (state : GraphState net) (inputs : UpdateInputs V)

/-- The graph of `run_update_cache` with the call's inputs. -/
def updateFilled (net : DraftNet V) (state : GraphState net) (inputs : UpdateInputs V) : RowGraph V :=
  (state.updateGraph inputs).1.fill net state.cache state.cache.count
    (bucketFor b1CcBuckets state.cache.count) inputs.hidden3h inputs.inputIds
    (net.batchPosIds inputs.startPosition)

/-- The row a call of `run_update_cache` replays. -/
def replayedUpdate (net : DraftNet V) (state : GraphState net) (inputs : UpdateInputs V) :
    RowForward V :=
  (updateFilled net state inputs).updateRow net inputs.N (bucketFor b1CcBuckets state.cache.count)

/-- The tensors a call of `run_update_cache` reads are there if and only if the call fits: tensors that
were just looked up are held. Getting the graph leaves the rows. -/
theorem update_intact : ((updateFilled net state inputs).intact net (state.updateGraph inputs).2 false
        (inputs.N * net.K) = true ↔ Fits net state (.runUpdateCache inputs)) ∧
    (state.updateGraph inputs).2.ropeRows = state.tensors.ropeRows := by
  rw [updateFilled, intact_iff, LazyTensors.readableRows, if_neg Bool.false_ne_true,
    inTable_batchPosIds _ _ inputs.positions, Fits, GraphState.updateGraph]
  cases held : state.updGraphs (inputs.N, bucketFor b1CcBuckets state.cache.count) with
  | none =>
    obtain ⟨holds, rows, masks⟩ := lookupRope_spec state.tensors false
    have looked := RecentlyUsed.lookup_holds (show 0 < LazyTensors.maskCapacity by decide)
      state.tensors.masks inputs.N
    refine ⟨?_, rows⟩
    simp only [capturedRope, captureRow, LazyTensors.lookupMask, masks]
    refine ⟨fun both => ⟨both.2, fun _ => nofun⟩, fun fits => ⟨⟨holds, ?_⟩, fits.1⟩⟩
    rintro _ ⟨⟩
    exact looked
  | some graph =>
    simp only [Option.some.injEq, forall_eq', and_true]
    exact and_comm

theorem update_call (resolves : Resolves net state (.runUpdateCache inputs)) : ∃ following,
    following.tensors.ropeRows = state.tensors.ropeRows ∧ state.call (.runUpdateCache inputs) =
      if (updateFilled net state inputs).intact net (state.updateGraph inputs).2 false
          (inputs.N * net.K) = true then
        (.done [replayedUpdate net state inputs], { following with
          cache := state.cache.scatter state.cache.count (inputs.N * net.K)
            (fun layer slot => net.repeatKv ((replayedUpdate net state inputs).keys layer slot))
            state.cache.count_eq })
      else (.undefined, following) := by
  have accepted : ¬ b1CcBuckets.getLastD 0 < state.cache.count := Nat.not_lt.mpr resolves
  refine ⟨{ state with
    updGraphs := Function.update state.updGraphs
      (inputs.N, bucketFor b1CcBuckets state.cache.count) (some (updateFilled net state inputs))
    tensors := (state.updateGraph inputs).2 }, (update_intact state inputs).2, ?_⟩
  rw [GraphState.call, GraphState.runUpdateCache, if_neg accepted]
  rfl

variable {state inputs}

/-- The replayed row of an update sees the cells without the padding. -/
theorem replayedUpdate_eq (resolves : Resolves net state (.runUpdateCache inputs)) :
    replayedUpdate net state inputs = net.forwardRow
      (net.rightBatchSight inputs.N
        (fun layer => net.firstCells (state.cache.layer layer) state.cache.count))
      (net.batchPosIds inputs.startPosition) (net.inputBatch inputs.hidden3h inputs.inputIds) := by
  have within := bucketFor_holds resolves
  have counted (layer : Nat) :=
    firstCells_cache net state.cache layer (count_live state.cache layer)
  have sight := DraftNet.batchSight_right net inputs.N state.cache.count
    (fun layer => (List.range (bucketFor b1CcBuckets state.cache.count)).map
      ((updateFilled net state inputs).cross layer)) (updateFilled net state inputs).crossMask
    (fun layer => by simpa using within)
    (fun layer index inside => crossMask_first _ _ _ _ _ _ (by simpa using inside))
  have taken : (fun layer => ((List.range (bucketFor b1CcBuckets state.cache.count)).map
      ((updateFilled net state inputs).cross layer)).take state.cache.count) =
        fun layer => net.firstCells (state.cache.layer layer) state.cache.count := by
    funext layer
    have copied := copied_cells net state.cache layer (count_live state.cache layer) within
      ((state.updateGraph inputs).1.cross layer)
    exact (congrArg (List.take state.cache.count) copied).trans (List.take_left' (counted layer))
  rw [taken] at sight
  rw [← sight]
  rfl

theorem batch_right {N size : Nat} {cells : Nat → List (HeadCell V)} (posIds : Nat → Nat)
    (hidden : Nat → V) : net.SeesRight size (net.rightBatchSight N cells)
      (net.forwardRow (net.rightBatchSight N cells) posIds hidden) :=
  fun _ _ _ _ _ _ => rfl

/-- A call of `run_update_cache` sees the right keys if and only if it fits. -/
theorem update_sees_iff (resolves : Resolves net state (.runUpdateCache inputs)) :
    SeesReply net state.cache (.runUpdateCache inputs)
        (state.call (.runUpdateCache inputs)).1 ↔
      Fits net state (.runUpdateCache inputs) := by
  obtain ⟨following, -, ended⟩ := update_call state inputs resolves
  rw [ended, ← (update_intact state inputs).1]
  split_ifs with whole
  · constructor
    · exact fun _ => whole
    · intro _
      refine ⟨_, rfl, ?_⟩
      rw [replayedUpdate_eq resolves]
      exact batch_right _ _
  · exact ⟨fun sees => sees.elim, fun intact => absurd intact whole⟩

end update

/-! ## The eager forwards -/

theorem full_positive {cc : Nat} {buckets : List Nat} (positive : ∀ bucket ∈ buckets, 0 < bucket)
    (nonempty : 0 < buckets.getLastD 0) (full : bucketFor buckets cc = cc) : 0 < cc := by
  rw [← full]
  exact bucketFor_positive cc buckets positive nonempty

theorem buffer_of_count (cache : DraftCache V) (live : 0 < (cache.layer 0).count) :
    (cache.layer 0).buffer.isSome = true := by
  cases held : (cache.layer 0).buffer with
  | none =>
    have fits := cache.fits 0
    simp only [StreamLayer.cells, held, Option.getD_none, List.length_nil] at fits
    omega
  | some rows => rfl

theorem scatter_congr (cache : DraftCache V) {left right size : Nat}
    {cells others : Nat → Nat → HeadCell V} (sameCount : left = right) (sameCells : cells = others)
    (atLeft : left = (cache.layer 0).count) (atRight : right = (cache.layer 0).count) :
    cache.scatter left size cells atLeft = cache.scatter right size others atRight := by
  subst sameCount sameCells
  rfl

/-- Positions in the table of a graph are in that of the eager forward. -/
theorem eager_inTable (state : GraphState net) {positionId : Nat}
    (within : positionId + net.K < state.tensors.readableRows net.fusedRope) :
    DraftNet.inTable (eagerRows net state.tensors.ropeRows (positionId + net.K + 1)) net.K
      (DraftNet.posIds positionId) = true := by
  rw [inTable_posIds, eagerRows]
  split_ifs
  · exact within.trans_le (readableRows_le _ _)
  · exact Nat.lt_succ_self _

theorem eagerRun_eq (state : GraphState net) (inputs : RunInputs V)
    (resolves : Resolves net state (.run inputs)) (fits : Fits net state (.run inputs)) :
    eagerRun net state.tensors.ropeRows
        (crossSlices net state.cache (effectiveCrossCount net state.cache))
        (effectiveCrossCount net state.cache) inputs =
      some ((List.range inputs.N).map (replayedRow net state inputs)) := by
  have live (layer : Nat) := effectiveCrossCount_le net state.cache layer
  have noError : ¬ (net.headDim = 128 ∧ ¬ (crossSlices net state.cache
      (effectiveCrossCount net state.cache) 0).isSome = true) := by
    rintro ⟨wide, missing⟩
    have positive : 0 < effectiveCrossCount net state.cache :=
      full_positive (by decide) (by decide) (fits.1 wide)
    have buffer := buffer_of_count state.cache (Nat.lt_of_lt_of_le positive (live 0))
    exact missing (by simp [crossSlices, positive, buffer])
  have inside := not_not.mpr (eager_inTable state fits.2.1)
  rw [eagerRun, if_neg noError, if_neg inside]
  congr 1
  apply List.map_congr_left
  intro row member
  rw [replayedRow_right state inputs resolves (List.mem_range.mp member) fits.1]
  congr 1
  apply eagerSight_eq state.cache live
  · intro layer
    exact crossSlices_cells state.cache layer (live layer)
  · intro index below
    exact if_pos below
  · intro layer index _
    have behind : ¬ effectiveCrossCount net state.cache + index <
        effectiveCrossCount net state.cache := by omega
    rw [if_neg behind, Nat.add_sub_cancel_left]

/-- The eager forward of `run_block1` computes the replayed row. -/
theorem eagerBlock1Row_eq (state : GraphState net) (inputs : Block1Inputs V)
    (resolves : Resolves net state (.runBlock1 inputs))
    (full : net.headDim = 128 →
      bucketFor b1CcBuckets state.cache.count = state.cache.count) :
    eagerBlock1Row net state.cache inputs = replayedBlock1 net state inputs := by
  rw [replayedBlock1_right resolves full, eagerBlock1Row]
  congr 1
  apply eagerSight_eq state.cache (count_live state.cache)
  · intro layer
    rw [state.cache.alike layer, state.cache.count_eq]
  · exact fun _ _ => rfl
  · intro _ index inside
    exact absurd inside (Nat.not_lt_zero index)

/-- The eager forward of `run_update_cache` computes the replayed row. -/
theorem eagerUpdateRow_eq (state : GraphState net) (inputs : UpdateInputs V)
    (resolves : Resolves net state (.runUpdateCache inputs)) :
    eagerUpdateRow net state.cache inputs = replayedUpdate net state inputs := by
  rw [replayedUpdate_eq resolves, eagerUpdateRow]
  congr 1
  have counted (layer : Nat) : (state.cache.layer layer).count = state.cache.count := by
    rw [state.cache.alike layer, state.cache.count_eq]
  have lengths (layer : Nat) := firstCells_cache net state.cache layer
    (count_live state.cache layer)
  have sight := DraftNet.batchSight_right net inputs.N state.cache.count
    (fun layer => net.firstCells (state.cache.layer layer) state.cache.count) (fun _ => true)
    (fun layer => (lengths layer).ge)
    (fun layer index inside => by
      rw [lengths] at inside
      exact (decide_eq_true inside).symm)
  have taken : (fun layer => (net.firstCells (state.cache.layer layer) state.cache.count).take
      state.cache.count) = fun layer => net.firstCells (state.cache.layer layer) state.cache.count := by
    funext layer
    exact List.take_of_length_le (lengths layer).le
  rw [taken] at sight
  simp only [counted]
  exact sight

variable (net) in
/-- A call of `run` touches neither the draft cache nor the rows of the base tables. -/
theorem run_cache (state : GraphState net) (inputs : RunInputs V) :
    (state.call (.run inputs)).2.cache = state.cache ∧
      (state.call (.run inputs)).2.tensors.ropeRows = state.tensors.ropeRows := by
  rw [GraphState.call, GraphState.run]
  split_ifs with refused
  · exact ⟨rfl, rfl⟩
  · exact ⟨rfl, (runGraph_intact state _ 0).2⟩

/-- The eager forward of a call that fits leaves the rows of the base tables. -/
theorem fits_rows (state : GraphState net) (call : Call V) (fits : Fits net state call) :
    (eagerUses net call).foldl grownRows state.tensors.ropeRows = state.tensors.ropeRows := by
  have single (positionId : Nat)
      (within : positionId + net.K < state.tensors.readableRows net.fusedRope) :
      grownRows state.tensors.ropeRows (singleUse net (positionId + net.K + 1)) =
        state.tensors.ropeRows := by
    rw [singleUse]
    split_ifs
    · rfl
    · have fewer := within.trans_le (readableRows_le _ _)
      exact if_neg (by omega)
  cases call with
  | run inputs => exact single inputs.positionId fits.2.1
  | runBlock1 inputs => exact single inputs.positionId fits.2.1
  | runUpdateCache inputs =>
    have long : ¬ state.tensors.ropeRows < inputs.startPosition + inputs.N + net.K :=
      Nat.not_lt.mpr (fits.1.trans state.tensors.long)
    rw [eagerUses]
    split_ifs
    · exact if_neg long
    · exact if_neg long

theorem call_refused (state : GraphState net) (call : Call V) (refused : ¬ Resolves net state call) :
    (state.call call).1 = .outOfBucket := by
  cases call with
  | run inputs =>
    have large : ccBuckets.getLastD 0 < effectiveCrossCount net state.cache ∨
        bBuckets.getLastD 0 < inputs.N := by
      by_contra small
      exact refused ⟨by omega, by omega⟩
    rw [GraphState.call, GraphState.run, if_pos large]
  | runBlock1 inputs =>
    rw [GraphState.call, GraphState.runBlock1, if_pos (Nat.lt_of_not_le refused)]
  | runUpdateCache inputs =>
    rw [GraphState.call, GraphState.runUpdateCache, if_pos (Nat.lt_of_not_le refused)]

/-- A call that fits, or that no bucket holds, returns what the eager forward returns, and leaves the
same cache and as many rows of the base tables. -/
theorem call_eager (state : GraphState net) (call : Call V)
    (fits : Resolves net state call → Fits net state call) :
    eagerCall net state.tensors.ropeRows state.cache call =
        ((state.callOrEager call).1, (state.callOrEager call).2.cache) ∧
      (state.callOrEager call).2.tensors.ropeRows =
        (eagerUses net call).foldl grownRows state.tensors.ropeRows := by
  by_cases resolves : Resolves net state call
  · have fitting := fits resolves
    rw [fits_rows state call fitting]
    cases call with
    | run inputs =>
      have reply := run_reply state inputs resolves
      obtain ⟨kept, rows⟩ := run_cache net state inputs
      rw [if_pos fitting.2] at reply
      rw [GraphState.callOrEager, eagerCall]
      generalize state.call (.run inputs) = ended at reply kept rows
      obtain ⟨_, following⟩ := ended
      subst reply
      have same : following.cache = state.cache := kept
      refine ⟨?_, rows⟩
      simp only [eagerRun_eq state inputs resolves fitting, Option.map_some, same]
    | runBlock1 inputs =>
      obtain ⟨following, rows, ended⟩ := block1_call state inputs resolves
      rw [if_pos ((block1_intact state inputs).1.mpr fitting.2)] at ended
      have noError : ¬ (net.headDim = 128 ∧ ¬ (state.cache.layer 0).buffer.isSome = true) := by
        rintro ⟨wide, missing⟩
        have positive : 0 < state.cache.count :=
          full_positive (by decide) (by decide) (fitting.1 wide)
        rw [state.cache.count_eq] at positive
        exact missing (buffer_of_count state.cache positive)
      have inside := not_not.mpr (eager_inTable state fitting.2.1)
      rw [GraphState.callOrEager, ended, eagerCall, eagerBlock1, if_neg noError, if_neg inside]
      rw [eagerBlock1Row_eq state inputs resolves fitting.1]
      refine ⟨?_, rows⟩
      simp only [scatter_congr state.cache state.cache.count_eq.symm rfl rfl state.cache.count_eq]
    | runUpdateCache inputs =>
      obtain ⟨following, rows, ended⟩ := update_call state inputs resolves
      rw [if_pos ((update_intact state inputs).1.mpr fitting)] at ended
      have inside : ¬ ¬ DraftNet.inTable (inputs.startPosition + inputs.N + net.K)
          (inputs.N * net.K) (net.batchPosIds inputs.startPosition) = true := by
        rw [inTable_batchPosIds _ _ inputs.positions]
        omega
      rw [GraphState.callOrEager, ended, eagerCall, eagerUpdate, if_neg inside]
      rw [eagerUpdateRow_eq state inputs resolves]
      refine ⟨?_, rows⟩
      simp only [scatter_congr state.cache state.cache.count_eq.symm rfl rfl state.cache.count_eq]
  · have refused := call_refused state call resolves
    rw [GraphState.callOrEager]
    generalize state.call call = ended at refused
    obtain ⟨_, following⟩ := ended
    subst refused
    exact ⟨rfl, use_ropeRows state.tensors (eagerUses net call)⟩

/-- A call that resolves sees the right keys if and only if it fits. -/
theorem sees_iff (state : GraphState net) (call : Call V) (resolves : Resolves net state call) :
    SeesReply net state.cache call (state.call call).1 ↔ Fits net state call := by
  cases call with
  | run inputs => exact run_sees_iff state inputs resolves
  | runBlock1 inputs => exact block1_sees_iff resolves
  | runUpdateCache inputs => exact update_sees_iff resolves

/-! ## Runs -/

/-- In a run every call whose sizes resolve to a bucket sees what it should, and the calls return
what the eager forwards return and leave the same caches. -/
structure ReplaysEager (net : DraftNet V) (state : GraphState net) (events : List (Event V)) : Prop where
  sees : EveryCall (fun state call => Resolves net state call →
    SeesReply net state.cache call (state.call call).1) state events
  returns : graphTrace state events = eagerTrace net state.tensors.ropeRows state.cache events

theorem EveryCall.imp {property other : GraphState net → Call V → Prop}
    (weaker : ∀ state call, property state call → other state call) {events : List (Event V)} :
    ∀ {state : GraphState net}, EveryCall property state events →
      EveryCall other state events := by
  induction events with
  | nil => exact fun _ => trivial
  | cons event rest ih =>
    intro state every
    cases event with
    | between change uses => exact @ih (state.between change uses) every
    | call call => exact ⟨weaker state call every.1, ih every.2⟩

/-- A run whose calls fit returns what the eager forwards return. -/
theorem trace_eager {events : List (Event V)} : ∀ {state : GraphState net},
    EveryCall (fun state call => Resolves net state call → Fits net state call) state events →
      graphTrace state events = eagerTrace net state.tensors.ropeRows state.cache events := by
  induction events with
  | nil => exact fun _ => rfl
  | cons event rest ih =>
    intro state every
    cases event with
    | between change uses =>
      have following := @ih (state.between change uses) every
      rw [graphTrace, eagerTrace, following]
      exact congrArg (eagerTrace net · (change state.cache) rest) (use_ropeRows state.tensors uses)
    | call call =>
      obtain ⟨same, rows⟩ := call_eager state call every.1
      have following := ih every.2
      rw [graphTrace, eagerTrace, same, ← rows, following]

/-- A run of calls replays the eager forwards if and only if every call that resolves to a bucket
fits. -/
theorem replaysEager_iff (state : GraphState net) (events : List (Event V)) :
    ReplaysEager net state events ↔
      EveryCall (fun state call => Resolves net state call → Fits net state call) state events := by
  constructor
  · intro replays
    exact replays.sees.imp (fun state call sees resolves =>
      (sees_iff state call resolves).mp (sees resolves))
  · intro every
    refine ⟨every.imp (fun state call fits resolves => ?_), trace_eager every⟩
    exact (sees_iff state call resolves).mpr (fits resolves)

/-- For every run of a new model's calls over any requests: every row of every call sees exactly
the current request's cross slots, its allowed cached slots and its own causal slots, and the calls
return what the eager forwards return and leave the same cache, if and only if no call takes the
three-part attention with a cross count below its bucket, leaves the rotation table or reads a
dropped tensor. -/
theorem draft_replays_iff (net : DraftNet V) (maxCacheLen : Nat) (events : List (Event V)) :
    ReplaysEager net (GraphState.fresh net maxCacheLen) events ↔
      EveryCall (fun state call => Resolves net state call → Fits net state call)
        (GraphState.fresh net maxCacheLen) events :=
  replaysEager_iff _ _

/-- A model with heads of 128 and four slots. -/
def smallNet : DraftNet Nat where
  K := 4
  nHeads := 2
  nKvHeads := 1
  headDim := 128
  numLayers := 2
  ropeMaxPos := 2048
  fusedRope := true
  zero := 0
  conditionProj := id
  fuse := fun condition token slot => condition + token + slot
  shiftProj := fun _ own shifted => own + shifted
  qProj := fun _ _ activation => activation
  kProj := fun _ _ activation => activation
  vProj := fun _ _ activation => activation
  rotate := fun position entry => entry + position
  softmaxAttention := fun _ cells => cells.length
  decoder := fun _ own heads => own + heads.sum
  lmHead := id
  rankHead := id
  slots := by decide
  heads := by decide
  layers := by decide

/-- One position is fed, which leaves four cross slots, and the next one is drafted. -/
def shortRun : List (Event Nat) :=
  [.call (.runUpdateCache ⟨1, fun _ => 1, fun _ => 7, 0, Nat.one_pos⟩),
    .call (.runBlock1 ⟨1, 8, 1⟩)]

/-- A replay over four cross slots sees the padding of its bucket. -/
theorem short_run_differs : ¬ ReplaysEager smallNet (GraphState.fresh smallNet 2048) shortRun := by
  intro replays
  have every := (replaysEager_iff _ _).mp replays
  have counted : ((GraphState.fresh smallNet 2048).callOrEager
      (.runUpdateCache ⟨1, fun _ => 1, fun _ => 7, 0, Nat.one_pos⟩)).2.cache.count = 4 := by
    decide +kernel
  have resolves : Resolves smallNet ((GraphState.fresh smallNet 2048).callOrEager
      (.runUpdateCache ⟨1, fun _ => 1, fun _ => 7, 0, Nat.one_pos⟩)).2 (.runBlock1 ⟨1, 8, 1⟩) := by
    show _ ≤ b1CcBuckets.getLastD 0
    rw [counted]
    decide
  have full := (every.2.1 resolves).1 rfl
  rw [counted] at full
  exact absurd full (by decide)

end SpecBlock.Draft
