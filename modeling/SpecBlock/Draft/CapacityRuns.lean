import SpecBlock.Batch.Capacity
import SpecBlock.Draft.CacheRounds

/-!
# The planner against the decode loop

The loop declares its dense target cache for trees one wider than the largest tree budget, whatever
trees come, and the cache never grows. It is within the planner's estimate if the planner was told at
least this width. Packed trees have a row for each active request.

The additive mask is another matter: it reaches over the committed prefixes and the reserve in front of
the staged trees, while the planner counts the longest prompt. The mask fits as long as the prefixes,
the reserve and the trees together are within the longest prompt and the declared width; with all
requests active and a tree of the declared width that is not so in any round.
-/

namespace SpecBlock.Draft

open Serving Batch Rows

variable {E H : Type} {settings : Settings} {models : Models} {prompts : List (List Nat)}
  {maxTreeWidth declared : Nat} {state : LoopState E H} {geometry : KVGeometry}

section listed

/-- What a computation that ends well passes on. -/
theorem bind_ok {A B : Type} {first : Except String A} {rest : A → Except String B} {result : B}
    (ran : first >>= rest = .ok result) : ∃ between, first = .ok between ∧ rest between = .ok result := by
  cases first with
  | error reason => cases ran
  | ok between => exact ⟨between, rfl, ran⟩

/-- There are no more active requests than prompts. -/
def Listed (prompts : List (List Nat)) (outcome : LoopOutcome E H) : Prop :=
  ∀ state, outcome = .running state → state.active.length ≤ prompts.length

end listed

section tensors

/-- What a round allocates: the target's keys and values, the additive mask over what is in front of
the staged trees and over the trees, and the packed ids and positions. -/
def roundTensors (geometry : KVGeometry) (maskBytesPerElement : Nat) (settings : Settings)
    (prompts : List (List Nat)) (state : LoopState E H) : List MemoryEstimate :=
  let treeWidth := state.treeWidth settings
  [⟨"specblock_dense_target_kv", targetKvBytes geometry prompts.length state.target.capacity⟩,
    ⟨"specblock_verify_additive_mask",
      tensorBytes [state.active.length, 1, treeWidth, state.target.treeStart + treeWidth]
        maskBytesPerElement⟩,
    ⟨"specblock_tree_ids_positions", treeIdsBytes state.active.length treeWidth⟩]

/-- A tensor is within the estimate of its name. -/
def WithinEstimate (estimates : List MemoryEstimate) (tensor : MemoryEstimate) : Prop :=
  ∃ estimate ∈ estimates, estimate.name = tensor.name ∧ tensor.bytes ≤ estimate.bytes

/-- The prefixes, the reserve and the packed trees are within the longest prompt and the declared
width. -/
def MaskFits (settings : Settings) (prompts : List (List Nat)) (declared : Nat)
    (state : LoopState E H) : Prop :=
  maximum (state.active.map (fun request => request.targetPrefixLen)) +
    commitReserve state.requests (state.treeWidth settings) + state.treeWidth settings ≤
      promptWidth prompts + declared

theorem specblockPeakEstimates_ok {maxNewTokens maskBytesPerElement : Nat}
    {estimates : List MemoryEstimate} (estimated : specblockPeakEstimates geometry
      (prompts.map List.length) maxNewTokens declared maskBytesPerElement = .ok estimates) :
    0 < declared ∧ 0 < prompts.length ∧ estimates = [
      memoryEstimate "specblock_dense_target_kv" geometry prompts.length
        (promptWidth prompts + maxNewTokens + 2 * declared),
      ⟨"specblock_verify_additive_mask",
        tensorBytes [prompts.length, 1, declared, promptWidth prompts + declared]
          maskBytesPerElement⟩,
      ⟨"specblock_tree_ids_positions", treeIdsBytes prompts.length declared⟩] := by
  rw [specblockPeakEstimates] at estimated
  split at estimated
  next => cases estimated
  next positive =>
    split at estimated
    next => cases estimated
    next wide =>
      obtain rfl := Except.ok.inj estimated
      rw [not_or, List.map_eq_nil_iff] at positive
      refine ⟨Nat.pos_of_ne_zero wide, List.length_pos_of_ne_nil positive.1, ?_⟩
      simp only [List.length_map]
      rfl

theorem tensorBytes_mask_le {rows width reach rows' width' reach' : Nat} (bytes : Nat)
    (fewer : rows ≤ rows') (narrower : width ≤ width') (shorter : reach ≤ reach') :
    tensorBytes [rows, 1, width, reach] bytes ≤ tensorBytes [rows', 1, width', reach'] bytes := by
  simp only [tensorBytes, List.foldl_cons, List.foldl_nil]
  exact Nat.mul_le_mul (Nat.mul_le_mul (Nat.mul_le_mul_right _ (Nat.mul_le_mul_left _ fewer)) narrower)
    shorter

/-- What a tensor's estimate rests on: the dense cache on the width that the loop declared it for, the
additive mask on the prefixes, the reserve and the trees. The ids and positions rest on nothing. -/
def TensorFits (settings : Settings) (prompts : List (List Nat)) (maxTreeWidth declared : Nat)
    (state : LoopState E H) (name : String) : Prop :=
  (name = "specblock_dense_target_kv" → maxTreeWidth ≤ declared) ∧
    (name = "specblock_verify_additive_mask" → MaskFits settings prompts declared state)

/-- What holds of a staged round of a run: the cache is as large as the loop declared it, the packed
trees have a row for each active request, and they start behind the longest prefix and the reserve. -/
structure StagedWithin (settings : Settings) (prompts : List (List Nat)) (maxTreeWidth : Nat)
    (state : LoopState E H) : Prop where
  capacity : state.target.capacity = promptWidth prompts + settings.maxNewTokens + 2 * maxTreeWidth
  rows : state.active.length ≤ prompts.length
  start : state.target.treeStart = maximum (state.active.map (fun request => request.targetPrefixLen)) +
    commitReserve state.requests (state.treeWidth settings)

/-- In a staged round whose packed trees are within the declared width, each tensor is within its
estimate if it fits. -/
theorem StagedWithin.tensors {maskBytesPerElement : Nat}
    (round : StagedWithin settings prompts maxTreeWidth state) {estimates : List MemoryEstimate}
    (estimated : specblockPeakEstimates geometry (prompts.map List.length) settings.maxNewTokens
      declared maskBytesPerElement = .ok estimates) (narrow : state.treeWidth settings ≤ declared) :
    ∀ tensor ∈ roundTensors geometry maskBytesPerElement settings prompts state,
      TensorFits settings prompts maxTreeWidth declared state tensor.name →
        WithinEstimate estimates tensor := by
  obtain ⟨-, -, rfl⟩ := specblockPeakEstimates_ok estimated
  intro tensor member fits
  rw [roundTensors] at member
  simp only [List.mem_cons, List.not_mem_nil, or_false] at member
  rcases member with rfl | rfl | rfl
  · refine ⟨_, .head _, rfl, ?_⟩
    have wide := fits.1 rfl
    rw [targetKvBytes_eq, round.capacity]
    exact Nat.mul_le_mul_left _ (by omega)
  · refine ⟨_, .tail _ (.head _), rfl, tensorBytes_mask_le _ round.rows narrow ?_⟩
    rw [round.start]
    exact fits.2 rfl
  · refine ⟨_, .tail _ (.tail _ (.head _)), rfl, ?_⟩
    simp only [treeIdsBytes, tensorBytes, List.foldl_cons, List.foldl_nil]
    exact Nat.mul_le_mul_right _ (Nat.mul_le_mul (Nat.mul_le_mul_left _ round.rows) narrow)

end tensors

/-- In the first round of the EAGLE3 loop the tree and the cache of a prompt have been packed. -/
def firstPacked : Eagle3State :=
  packCaches (packTreeRows ⟨prefilledRequests [2] (fun _ => 2), [], [], []⟩)

/-- One token is accepted, and the request's cache is replaced. -/
def firstCompacted : Eagle3State := compactCache 0 [7] firstPacked

end SpecBlock.Draft
