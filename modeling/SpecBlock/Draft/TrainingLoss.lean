import Mathlib.Algebra.Field.Basic
import Mathlib.Algebra.Order.Field.Basic
import Mathlib.Algebra.Order.Ring.Defs

/-!
# Losses of a training block

A training block predicts, from every position of a sequence, the tokens of the next slots and the
rank class of each. The losses of a slot run over the positions that still have a target for it,
weighted by masks: the draft loss by the chain of slots whose first choice was the target, the rank
loss by the chain of slots whose rank class was predicted.

The rows of a tensor are functions of batch row and position, of which a slot reads the first
`S - k`. Exponential, logarithm and the selection of the greatest entries belong to the tensor
library.
-/

namespace SpecBlock.Draft

variable {R : Type} [Field R] [LinearOrder R]

/-- `argmax`: the first of the greatest entries. -/
def argmax (row : List R) : Nat :=
  ((List.range row.length).find? (fun index =>
    row.all (fun other => decide (other ≤ row.getD index 0)))).getD 0

/-- `F.softmax` of a row. -/
def softmaxRow (exp : R → R) (row : List R) : List R :=
  row.map (fun entry => exp entry / (row.map exp).sum)

/-- `F.log_softmax` of a row. -/
def logSoftmaxRow (exp log : R → R) (row : List R) : List R :=
  row.map (fun entry => entry - log (row.map exp).sum)

/-- `_compute_rank_labels` for one row: the bucket of the target's rank among the ten best. -/
def computeRankLabel (topk : Nat → List R → List (R × Nat)) (logits : List R) (targetToken : Nat) :
    Nat :=
  let top10Indices := (topk 10 logits).map Prod.snd
  if targetToken ∈ top10Indices then
    let rankPosition := top10Indices.idxOf targetToken
    if rankPosition = 0 then 0 else if rankPosition ≤ 3 then 1 else 2
  else 3

/-- `_asymmetric_ordinal_smooth` for one label. -/
def asymmetricOrdinalSmooth (classes label : Nat) : List R :=
  let raw := (List.range classes).map (fun (other : Nat) =>
    let diff : R := (label : R) - (other : R)
    1 / (1 + |diff| + max diff 0) ^ 2)
  raw.map (fun entry => entry / raw.sum)

/-- What `_compute_batched_loss_acc_and_rank` is called with. -/
structure LossInputs (R : Type) where
  B : Nat
  S : Nat
  K : Nat
  rankClasses : Nat
  targetOffset : Nat
  budgetPerClass : Int
  chainSnapshotSlot : Int
  draftLossTopk : Int
  logits : Nat → Nat → Nat → List R
  rankLogits : Nat → Nat → Nat → List R
  targetPFull : Nat → Nat → List R
  positionMaskFull : Nat → Nat → R
  lossMask : Nat → Nat → R

/-- What the loop over the slots accumulates. -/
structure LossState (R : Type) where
  draftLosses : List R
  accs : List R
  rankLossSum : R
  rankLossCount : R
  rankCorrectPerClass : List R
  rankCountPerClass : List R
  chainMask : Nat → Nat → R
  rankChain : Nat → Nat → R
  chainSnapshot : Option (Nat → Nat → R)
  rankChainCorrectCount : R
  rankChainTotalCount : R
  rank0PredCount : R
  rank0PredCorrect : R
  rank0TruthCount : R
  rank0TruthPredicted : R

/-- What `_compute_batched_loss_acc_and_rank` returns. -/
structure LossOutputs (R : Type) where
  draftLosses : List R
  accs : List R
  rankLoss : R
  rankAccPerClass : List R
  rankCountPerClass : List R
  rankChainAllCorrect : Bool
  rank0Prf : List R
  chainSnapshot : Option (Nat → Nat → R)

/-- A Boolean tensor entry as a number. -/
def flag (condition : Bool) : R := if condition then 1 else 0

/-- `torch.where(total > 0, value / total.clamp_min(1.0), total)`. -/
def meanOver (value total : R) : R := if 0 < total then value / max total 1 else total

section slots

variable (exp log : R → R) (topk : Nat → List R → List (R × Nat)) (inputs : LossInputs R)

/-- The sum over what a slot reads. -/
def slotSum (k : Nat) (entry : Nat → Nat → R) : R :=
  ((List.range inputs.B).map (fun b =>
    ((List.range (inputs.S - k)).map (fun i => entry b i)).sum)).sum

/-- `target_p_k`. -/
def targetPAt (k b i : Nat) : List R := inputs.targetPFull b (inputs.targetOffset + k + i)

/-- `position_mask_k`. -/
def positionMaskAt (k b i : Nat) : R := inputs.positionMaskFull b (inputs.targetOffset + k + i)

/-- `pred_tokens`. -/
def predToken (k b i : Nat) : Nat := argmax (inputs.logits b i k)

/-- `target_tokens`. -/
def targetToken (k b i : Nat) : Nat := argmax (targetPAt inputs k b i)

/-- `rank_labels`. -/
def rankLabel (k b i : Nat) : Nat :=
  computeRankLabel topk (inputs.logits b i k) (targetToken inputs k b i)

/-- `rank_pred`. -/
def rankPred (k b i : Nat) : Nat := argmax (inputs.rankLogits b i k)

/-- `init_mask`. -/
def initMask (b i : Nat) : R := inputs.lossMask b i * inputs.positionMaskFull b i

/-- `combined_mask_k` of a chain mask. -/
def combinedMask (chainMask : Nat → Nat → R) (k b i : Nat) : R :=
  positionMaskAt inputs k b i * chainMask b i

/-- `rank_mask_k` of a rank chain. -/
def rankMask (rankChain : Nat → Nat → R) (k b i : Nat) : R :=
  rankChain b i * positionMaskAt inputs k b i

/-- `slot_class_counts` of a class. -/
def slotClassCount (rankChain : Nat → Nat → R) (k label : Nat) : R :=
  slotSum inputs k (fun b i =>
    flag (rankLabel topk inputs k b i = label) * rankMask inputs rankChain k b i)

/-- `freq_w` of a class. -/
def freqW (rankChain : Nat → Nat → R) (k label : Nat) : R :=
  min ((inputs.budgetPerClass : R) / max (slotClassCount topk inputs rankChain k label) 1) 1

/-- `effective_mask`. -/
def effectiveMask (rankChain : Nat → Nat → R) (k b i : Nat) : R :=
  if 0 < inputs.budgetPerClass then
    freqW topk inputs rankChain k (rankLabel topk inputs k b i) * rankMask inputs rankChain k b i
  else rankMask inputs rankChain k b i

/-- The draft loss of a position: over all tokens, or over the target's best only. -/
def lossPerPos (k b i : Nat) : R :=
  let logProbs := logSoftmaxRow exp log (inputs.logits b i k)
  if 0 < inputs.draftLossTopk then
    -((topk inputs.draftLossTopk.toNat (targetPAt inputs k b i)).map (fun best =>
      best.1 * logProbs.getD best.2 0)).sum
  else -(List.zipWith (· * ·) (targetPAt inputs k b i) logProbs).sum

/-- `per_sample_ce * dist_w` of a position. -/
def rankLossPerPos (k b i : Nat) : R :=
  let label := rankLabel topk inputs k b i
  let softTargets : List R := asymmetricOrdinalSmooth inputs.rankClasses label
  let crossEntropy :=
    -(List.zipWith (· * ·) softTargets (logSoftmaxRow exp log (inputs.rankLogits b i k))).sum
  let diff : R := (label : R) - (rankPred inputs k b i : R)
  crossEntropy * (1 + |diff| + max diff 0)

/-- A mask whose first entries, as many as the slot reads, are multiplied by a flag. -/
def narrowed (k : Nat) (mask : Nat → Nat → R) (kept : Nat → Nat → Bool) (b i : Nat) : R :=
  if i < inputs.S - k then mask b i * flag (kept b i) else mask b i

/-- One turn of the loop over the slots. -/
def slotTurn (state : LossState R) (k : Nat) : LossState R :=
  if inputs.S ≤ k then state
  else
    let total := slotSum inputs k
    let combined := combinedMask inputs state.chainMask k
    let rankMaskK := rankMask inputs state.rankChain k
    let effective := effectiveMask topk inputs state.rankChain k
    let label := rankLabel topk inputs k
    let predCorrect := fun b i => decide (predToken inputs k b i = targetToken inputs k b i)
    let rankRight := fun b i => decide (rankPred inputs k b i = label b i)
    let rankCorrect := fun b i => flag (rankRight b i) * rankMaskK b i
    let predIs0 := fun b i => decide (rankPred inputs k b i = 0) && decide (rankMaskK b i ≠ 0)
    let truthIs0 := fun b i => decide (label b i = 0) && decide (rankMaskK b i ≠ 0)
    let chainMask := narrowed inputs k state.chainMask predCorrect
    { draftLosses := state.draftLosses.set k
        (meanOver (total (fun b i => combined b i * lossPerPos exp log topk inputs k b i))
          (total combined))
      accs := state.accs.set k
        (total (fun b i => flag (predCorrect b i) * positionMaskAt inputs k b i) /
          max (total (positionMaskAt inputs k)) 1)
      rankLossSum := state.rankLossSum +
        total (fun b i => rankLossPerPos exp log topk inputs k b i * effective b i)
      rankLossCount := state.rankLossCount + total effective
      rankCorrectPerClass := state.rankCorrectPerClass.mapIdx (fun c count =>
        count + total (fun b i => flag (label b i = c) * rankMaskK b i * rankCorrect b i))
      rankCountPerClass := state.rankCountPerClass.mapIdx (fun c count =>
        count + total (fun b i => flag (label b i = c) * rankMaskK b i))
      chainMask := chainMask
      rankChain := narrowed inputs k state.rankChain rankRight
      chainSnapshot := if (k : Int) = inputs.chainSnapshotSlot then some chainMask
        else state.chainSnapshot
      rankChainCorrectCount := state.rankChainCorrectCount + total rankCorrect
      rankChainTotalCount := state.rankChainTotalCount + total rankMaskK
      rank0PredCount := state.rank0PredCount + total (fun b i => flag (predIs0 b i))
      rank0PredCorrect := state.rank0PredCorrect +
        total (fun b i => flag (predIs0 b i && truthIs0 b i))
      rank0TruthCount := state.rank0TruthCount + total (fun b i => flag (truthIs0 b i))
      rank0TruthPredicted := state.rank0TruthPredicted +
        total (fun b i => flag (truthIs0 b i && predIs0 b i)) }

/-- What the loop starts from. -/
def lossStart : LossState R where
  draftLosses := List.replicate inputs.K 0
  accs := List.replicate inputs.K 0
  rankLossSum := 0
  rankLossCount := 0
  rankCorrectPerClass := List.replicate inputs.rankClasses 0
  rankCountPerClass := List.replicate inputs.rankClasses 0
  chainMask := initMask inputs
  rankChain := initMask inputs
  chainSnapshot := none
  rankChainCorrectCount := 0
  rankChainTotalCount := 0
  rank0PredCount := 0
  rank0PredCorrect := 0
  rank0TruthCount := 0
  rank0TruthPredicted := 0

/-- The state in which a slot is reached. -/
def slotState (k : Nat) : LossState R :=
  (List.range k).foldl (slotTurn exp log topk inputs) (lossStart inputs)

/-- `_compute_batched_loss_acc_and_rank`. -/
def computeBatchedLossAccAndRank : LossOutputs R :=
  let state := slotState exp log topk inputs inputs.K
  let r0Prec := meanOver state.rank0PredCorrect state.rank0PredCount
  let r0Rec := meanOver state.rank0TruthPredicted state.rank0TruthCount
  { draftLosses := state.draftLosses
    accs := state.accs
    rankLoss := meanOver state.rankLossSum state.rankLossCount
    rankAccPerClass := List.zipWith (fun correct count =>
      if 0 < count then correct / max count 1 else 0) state.rankCorrectPerClass state.rankCountPerClass
    rankCountPerClass := state.rankCountPerClass
    rankChainAllCorrect :=
      decide (state.rankChainTotalCount - 1 / 2 ≤ state.rankChainCorrectCount)
    rank0Prf := [r0Prec, r0Rec, meanOver (2 * r0Prec * r0Rec) (r0Prec + r0Rec)]
    chainSnapshot := state.chainSnapshot }

end slots

section blocks

/-- What the training step of a sequence batch is given: its tensors, the settings of the wrapper,
the outputs of the draft model for every block and the random lengths of the blocks. -/
structure TrainingStep (R : Type) where
  B : Nat
  S : Nat
  K : Nat
  rankClasses : Nat
  numTttBlocks : Nat
  rankStartStep : Nat
  globalStep : Nat
  budgetPerClass : Int
  draftLossTopk : Int
  t2d : List Bool
  target : Nat → Nat → List R
  lossMask : Nat → Nat → R
  draftLogits : Nat → Nat → Nat → Nat → List R
  draftRankLogits : Nat → Nat → Nat → Nat → List R
  blockLength : Nat → Nat
  drawn : ∀ block, 1 ≤ blockLength block ∧ blockLength block ≤ K

variable (exp : R → R) (step : TrainingStep R)

/-- The entries of a row over the whole vocabulary that the draft vocabulary has. -/
def mappedEntries (t2d : List Bool) (row : List R) : List R :=
  ((row.zip t2d).filter Prod.snd).map Prod.fst

/-- `target_p` of `_compute_target_p`. -/
def computeTargetP (b i : Nat) : List R :=
  softmaxRow exp (mappedEntries step.t2d (step.target b i))

/-- `position_mask` of `_compute_target_p`. -/
def computePositionMask (b i : Nat) : R :=
  flag (step.t2d.getD (argmax (step.target b i)) false) * step.lossMask b i

/-- `target_p_padded`. -/
def targetPPadded (b i : Nat) : List R :=
  if i < step.S then computeTargetP exp step b i else List.replicate (step.t2d.count true) 0

/-- `position_mask_padded`. -/
def positionMaskPadded (b i : Nat) : R :=
  if i < step.S then computePositionMask step b i else 0

/-- The call of the loss function for a block; `nextM` is the length of the block, if another block
follows. -/
def blockCall (block targetOffset : Nat) (nextM : Option Nat) : LossInputs R where
  B := step.B
  S := step.S
  K := step.K
  rankClasses := step.rankClasses
  targetOffset := targetOffset
  budgetPerClass := step.budgetPerClass
  chainSnapshotSlot := match nextM with
    | some length => (length : Int) - 1
    | none => -1
  draftLossTopk := step.draftLossTopk
  logits := step.draftLogits block
  rankLogits := step.draftRankLogits block
  targetPFull := targetPPadded exp step
  positionMaskFull := positionMaskPadded step
  lossMask := step.lossMask

/-- The calls of the blocks that are left, from a block and its offset on. -/
def blockCalls : Nat → Nat → Nat → List (LossInputs R)
  | 0, _, _ => []
  | left + 1, block, targetOffset =>
    if step.S ≤ targetOffset then []
    else
      let nextM := if 0 < left then some (step.blockLength block) else none
      blockCall exp step block targetOffset nextM ::
        blockCalls left (block + 1) (targetOffset + step.blockLength block)

/-- The calls of the loss function in `OnlineSpecBlockModel.forward`. -/
def forwardCalls : List (LossInputs R) :=
  blockCalls exp step (if step.rankStartStep ≤ step.globalStep then step.numTttBlocks else 1) 0 0

/-- `plosses` of `OnlineSpecBlockModel.forward`: the slots' draft losses and the rank loss, each
summed over the blocks. -/
def forwardLosses (log : R → R) (topk : Nat → List R → List (R × Nat)) : List R :=
  let outputs := (forwardCalls exp step).map (computeBatchedLossAccAndRank exp log topk)
  (List.range step.K).map (fun k => (outputs.map (fun output => output.draftLosses.getD k 0)).sum) ++
    [(outputs.map (fun output => output.rankLoss)).sum]

end blocks

end SpecBlock.Draft
