import SpecBlock.Draft.AttentionKeys
import SpecBlock.Draft.StreamCache
import SpecBlock.Draft.TrainingMasks

/-!
# The draft network

A forward turns conditions and tokens into activations of slots, and runs them through decoder
layers with the slots' activations shifted by one between them. In a layer every slot attends to
the keys of earlier positions in the cross cache, to cached keys of its own position and to the
current keys. The arithmetic of the projections, of the rotation and of the softmax is a
parameter: an attention is a function of the query and of the keys and values that are not
masked, since a masked score has weight zero.

A cell is a slot's key and value in every head. The caches of earlier positions hold a cell for
every query head; the slots' own cells and the cached ones of the position have fewer heads, of
which each serves a group.

The forward returns what the source returns, and besides for every layer, slot and head the keys
and values its attention sees.
-/

namespace SpecBlock.Draft

/-- A slot's key and value in every head. -/
abbrev HeadCell (V : Type) := Nat → V × V

/-- The draft model's sizes and arithmetic, and whether the fused rotation kernel is there, which is
used when it is. `ropeMaxPos` is the length of the rotation tables when the graph cache is made. -/
structure DraftNet (V : Type) where
  K : Nat
  nHeads : Nat
  nKvHeads : Nat
  headDim : Nat
  numLayers : Nat
  ropeMaxPos : Nat
  fusedRope : Bool
  zero : V
  conditionProj : V → V
  fuse : V → Nat → Nat → V
  shiftProj : Nat → V → V → V
  qProj : Nat → Nat → V → V
  kProj : Nat → Nat → V → V
  vProj : Nat → Nat → V → V
  rotate : Nat → V → V
  softmaxAttention : V → List (V × V) → V
  decoder : Nat → V → List V → V
  lmHead : V → V
  rankHead : V → V
  slots : 0 < K
  heads : 0 < nHeads
  layers : 0 < numLayers

/-- What a forward computes for one row: the cells of its slots in every layer, what every slot's
attention sees in every layer and head, and the activations behind the last layer. -/
structure RowForward (V : Type) where
  keys : Nat → Nat → HeadCell V
  seen : Nat → Nat → Nat → List (V × V)
  hidden : Nat → V

/-- What a call returns for one row. -/
structure RowOutput (V : Type) where
  logits : List V
  rankLogits : List V
  draftHidden : List V
  newTttKv : List (List (List (V × V)))

namespace DraftNet

variable {V : Type} (net : DraftNet V)

/-- Query heads that share a key head. -/
def nKvGroups : Nat := net.nHeads / net.nKvHeads

/-- `repeat_kv`. -/
def repeatKv (cell : HeadCell V) : HeadCell V := fun head => cell (head / net.nKvGroups)

/-- A cell of zeros. -/
def zeroCell : HeadCell V := fun _ => (net.zero, net.zero)

/-- The first rows of a layer's buffer; rows that were not written are zeros. -/
def firstCells (layer : StreamLayer (HeadCell V)) (count : Nat) : List (HeadCell V) :=
  (layer.cells.take count).map (fun cell => cell.getD net.zeroCell)

/-- `_apply_shift`: slots take the activation of the slot before, the first one of a position its
own. -/
def applyShift (hidden : Nat → V) : Nat → V :=
  fun slot => if slot % net.K = 0 then hidden slot else hidden (slot - 1)

/-- The activations of slots behind a shift projection. -/
def shiftProjForward (layer : Nat) (hidden : Nat → V) : Nat → V :=
  fun slot => net.shiftProj layer (hidden slot) (net.applyShift hidden slot)

/-- What a layer's attention sees, from the current cells, at a slot and a head. -/
abbrev Sight (V : Type) := Nat → (Nat → HeadCell V) → Nat → Nat → List (V × V)

/-- The rotated keys and the values of the slots. -/
def layerKeys (posIds : Nat → Nat) (layer : Nat) (hidden : Nat → V) : Nat → HeadCell V :=
  fun slot head => (net.rotate (posIds slot) (net.kProj layer head (hidden slot)),
    net.vProj layer head (hidden slot))

/-- A decoder layer. -/
def layerOutput (sight : Sight V) (posIds : Nat → Nat) (layer : Nat) (hidden : Nat → V) : Nat → V :=
  fun slot => net.decoder layer (hidden slot) ((List.range net.nHeads).map (fun head =>
    net.softmaxAttention (net.rotate (posIds slot) (net.qProj layer head (hidden slot)))
      (sight layer (net.layerKeys posIds layer hidden) slot head)))

/-- Activations that enter a layer. -/
def layerInput (sight : Sight V) (posIds : Nat → Nat) (hidden : Nat → V) : Nat → Nat → V
  | 0 => hidden
  | layer + 1 => net.shiftProjForward layer
      (net.layerOutput sight posIds layer (layerInput sight posIds hidden layer))

/-- The layers of a forward for one row, from the activations of the input layer. -/
def forwardRow (sight : Sight V) (posIds : Nat → Nat) (hidden : Nat → V) : RowForward V where
  keys := fun layer => net.layerKeys posIds layer (net.layerInput sight posIds hidden layer)
  seen := fun layer => sight layer
    (net.layerKeys posIds layer (net.layerInput sight posIds hidden layer))
  hidden := net.layerOutput sight posIds (net.numLayers - 1)
    (net.layerInput sight posIds hidden (net.numLayers - 1))

/-- What a call returns for the last `K` of a row's slots, from a first one on. -/
def rowOutput (first : Nat) (row : RowForward V) : RowOutput V where
  logits := (List.range net.K).map (fun slot => net.lmHead (row.hidden (first + slot)))
  rankLogits := (List.range net.K).map (fun slot => net.rankHead (row.hidden (first + slot)))
  draftHidden := (List.range net.K).map (fun slot => row.hidden (first + slot))
  newTttKv := (List.range net.numLayers).map (fun layer => (List.range net.K).map (fun slot =>
    (List.range net.nKvHeads).map (row.keys layer (first + slot))))

/-- The input layer of a single position, on a draft condition. -/
def inputDraft (hidden : V) (inputId : Nat) : Nat → V := fun slot => net.fuse hidden inputId slot

/-- The input layer of a single position, on the target's hidden states. -/
def inputTarget (hidden3h : V) (inputId : Nat) : Nat → V :=
  fun slot => net.fuse (net.conditionProj hidden3h) inputId slot

/-- The input layer of several positions. -/
def inputBatch (hidden3h : Nat → V) (inputIds : Nat → Nat) : Nat → V :=
  fun slot => net.fuse (net.conditionProj (hidden3h (slot / net.K))) (inputIds (slot / net.K))
    (slot % net.K)

/-- Position ids of a single position's slots. -/
def posIds (positionId : Nat) : Nat → Nat := fun slot => positionId + 1 + slot

/-- Position ids of several positions' slots. -/
def batchPosIds (startPosition : Nat) : Nat → Nat :=
  fun slot => startPosition + 1 + slot / net.K + slot % net.K

/-- Every slot's position is a row of a rotation table. -/
def inTable (ropeLen size : Nat) (posIds : Nat → Nat) : Bool :=
  (List.range size).all (fun slot => decide (posIds slot < ropeLen))

/-! ## What an attention sees -/

/-- The current cells up to a query's own. -/
def ownCells (keys : Nat → HeadCell V) (slot : Nat) : List (HeadCell V) :=
  attended ((List.range net.K).map keys) (fun index => decide (index ≤ slot))

/-- `three_part_attention`: all cross cells, the cached cells the mask lets through and the
current ones up to the query's. The mask of the whole is not an argument. -/
def threePartSight (cross ttt : Nat → List (HeadCell V)) (tttMask : Nat → Bool) : Sight V :=
  fun layer keys slot head =>
    (cross layer).map (fun cell => cell head) ++
      (attended (ttt layer) tttMask).map (fun cell => net.repeatKv cell head) ++
      (net.ownCells keys slot).map (fun cell => net.repeatKv cell head)

/-- The concatenated cells under one mask, of which a part over the cached cells is given. -/
def mergedSight (cross ttt : Nat → List (HeadCell V)) (fullMask : Nat → Bool) : Sight V :=
  fun layer keys slot head =>
    let cached := cross layer ++ (ttt layer).map net.repeatKv
    (attended (cached ++ ((List.range net.K).map keys).map net.repeatKv) (fun index =>
      if index < cached.length then fullMask index
      else decide (index - cached.length ≤ slot))).map (fun cell => cell head)

/-- Attention of a single position with the options as shipped. Heads of 128 take the three-part
path, all others the merged one. -/
def singleSight (cross ttt : Nat → List (HeadCell V)) (tttMask fullMask : Nat → Bool) : Sight V :=
  if net.headDim = 128 then net.threePartSight cross ttt tttMask
  else net.mergedSight cross ttt fullMask

/-- Attention over several positions: the cross cells under a mask and the current ones under the
causal one. -/
def batchSight (N : Nat) (cross : Nat → List (HeadCell V)) (crossMask : Nat → Bool) : Sight V :=
  fun layer keys slot head =>
    (attended (cross layer ++ ((List.range (N * net.K)).map keys).map net.repeatKv) (fun index =>
      if index < (cross layer).length then crossMask index
      else crossPositionCausalMask net.K slot (index - (cross layer).length))).map
        (fun cell => cell head)

/-! ## What an attention should see -/

/-- Exactly the given cross cells, the cached cells a mask allows and the slots' own cells up to
the query's. -/
def rightSight (cross ttt : Nat → List (HeadCell V)) (tttMask : Nat → Bool) : Sight V :=
  fun layer keys slot head =>
    (cross layer).map (fun cell => cell head) ++
      (attended (ttt layer) tttMask).map (fun cell => net.repeatKv cell head) ++
      ((List.range (slot + 1)).map keys).map (fun cell => net.repeatKv cell head)

/-- Exactly the given cross cells and the current cells that are not later than the query. -/
def rightBatchSight (N : Nat) (cross : Nat → List (HeadCell V)) : Sight V :=
  fun layer keys slot head =>
    (cross layer).map (fun cell => cell head) ++
      (attended ((List.range (N * net.K)).map keys) (crossPositionCausalMask net.K slot)).map
        (fun cell => net.repeatKv cell head)

/-- Every layer, slot and head of a row sees what it should. -/
def SeesRight (size : Nat) (right : Sight V) (row : RowForward V) : Prop :=
  ∀ layer slot head, layer < net.numLayers → slot < size → head < net.nHeads →
    row.seen layer slot head = right layer (row.keys layer) slot head

/-! ## Agreement of the attention paths -/

variable {net} {cross ttt : Nat → List (HeadCell V)} {tttMask fullMask : Nat → Bool}

theorem ownCells_eq (keys : Nat → HeadCell V) {slot : Nat} (inside : slot < net.K) :
    net.ownCells keys slot = (List.range (slot + 1)).map keys := by
  have first := attended_first ((List.range net.K).map keys)
    (fun index => decide (index ≤ slot)) (slot + 1) (by simpa using Nat.succ_le_of_lt inside)
    (fun index _ => decide_eq_decide.mpr Nat.lt_succ_iff.symm)
  rw [ownCells, first, ← List.map_take, List.take_range, Nat.min_eq_left inside]

theorem threePartSight_right {layer slot : Nat} (head : Nat) (keys : Nat → HeadCell V)
    (inside : slot < net.K) :
    net.threePartSight cross ttt tttMask layer keys slot head =
      net.rightSight cross ttt tttMask layer keys slot head := by
  rw [threePartSight, rightSight, ownCells_eq keys inside]

theorem mergedSight_eq (layer slot head : Nat) (keys : Nat → HeadCell V) :
    net.mergedSight cross ttt fullMask layer keys slot head =
      (attended (cross layer) fullMask).map (fun cell => cell head) ++
        (attended (ttt layer) (fun index => fullMask ((cross layer).length + index))).map
          (fun cell => net.repeatKv cell head) ++
        (net.ownCells keys slot).map (fun cell => net.repeatKv cell head) := by
  have crossPart : attended (cross layer) (fun index =>
      if index < (cross layer ++ (ttt layer).map net.repeatKv).length then fullMask index
      else decide (index - (cross layer ++ (ttt layer).map net.repeatKv).length ≤ slot)) =
        attended (cross layer) fullMask := by
    apply attended_congr
    intro index inside
    rw [if_pos (by rw [List.length_append]; omega)]
  have tttPart : attended ((ttt layer).map net.repeatKv) (fun index =>
      if (cross layer).length + index < (cross layer ++ (ttt layer).map net.repeatKv).length
      then fullMask ((cross layer).length + index)
      else decide ((cross layer).length + index -
        (cross layer ++ (ttt layer).map net.repeatKv).length ≤ slot)) =
        attended ((ttt layer).map net.repeatKv)
          (fun index => fullMask ((cross layer).length + index)) := by
    apply attended_congr
    intro index inside
    rw [if_pos (by rw [List.length_append]; omega)]
  have ownPart : attended (((List.range net.K).map keys).map net.repeatKv) (fun index =>
      if (cross layer ++ (ttt layer).map net.repeatKv).length + index <
          (cross layer ++ (ttt layer).map net.repeatKv).length
      then fullMask ((cross layer ++ (ttt layer).map net.repeatKv).length + index)
      else decide ((cross layer ++ (ttt layer).map net.repeatKv).length + index -
        (cross layer ++ (ttt layer).map net.repeatKv).length ≤ slot)) =
        (net.ownCells keys slot).map net.repeatKv := by
    rw [ownCells, ← attended_map]
    apply attended_congr
    intro index _
    rw [if_neg (by omega), Nat.add_sub_cancel_left]
  rw [mergedSight, attended_append, attended_append, crossPart, tttPart, ownPart, List.map_append,
    List.map_append, attended_map, List.map_map, List.map_map]
  rfl

variable (tttMask) in
/-- The merged attention sees what the three-part one sees of the first cross cells, when its
mask opens these, shuts the others, and holds the cached cells' mask behind them. -/
theorem mergedSight_threePart (count : Nat) (within : ∀ layer, count ≤ (cross layer).length)
    (first : ∀ layer index, index < (cross layer).length →
      fullMask index = decide (index < count))
    (behind : ∀ layer index, index < (ttt layer).length →
      fullMask ((cross layer).length + index) = tttMask index) :
    net.mergedSight cross ttt fullMask =
      net.threePartSight (fun layer => (cross layer).take count) ttt tttMask := by
  funext layer keys slot head
  rw [mergedSight_eq, threePartSight, attended_first (cross layer) fullMask count (within layer)
    (first layer), attended_congr (ttt layer) _ (behind layer)]

variable (net) in
/-- The attention over several positions sees the right keys when its mask opens the first cross
cells and shuts the others. -/
theorem batchSight_right (N count : Nat) (cross : Nat → List (HeadCell V)) (crossMask : Nat → Bool)
    (within : ∀ layer, count ≤ (cross layer).length)
    (first : ∀ layer index, index < (cross layer).length →
      crossMask index = decide (index < count)) :
    net.batchSight N cross crossMask =
      net.rightBatchSight N (fun layer => (cross layer).take count) := by
  funext layer keys slot head
  have crossPart : attended (cross layer) (fun index =>
      if index < (cross layer).length then crossMask index
      else crossPositionCausalMask net.K slot (index - (cross layer).length)) =
        (cross layer).take count := by
    apply attended_first _ _ _ (within layer)
    intro index inside
    rw [if_pos inside, first layer index inside]
  have ownPart : attended (((List.range (N * net.K)).map keys).map net.repeatKv) (fun index =>
      if (cross layer).length + index < (cross layer).length
      then crossMask ((cross layer).length + index)
      else crossPositionCausalMask net.K slot
        ((cross layer).length + index - (cross layer).length)) =
        (attended ((List.range (N * net.K)).map keys)
          (crossPositionCausalMask net.K slot)).map net.repeatKv := by
    rw [← attended_map]
    apply attended_congr
    intro index _
    rw [if_neg (by omega), Nat.add_sub_cancel_left]
  rw [batchSight, attended_append, crossPart, ownPart, List.map_append, List.map_map]
  rfl

theorem forwardRow_seen (sight : Sight V) (posIds : Nat → Nat) (hidden : Nat → V)
    (layer slot head : Nat) : (net.forwardRow sight posIds hidden).seen layer slot head =
      sight layer ((net.forwardRow sight posIds hidden).keys layer) slot head := rfl

end DraftNet

end SpecBlock.Draft
