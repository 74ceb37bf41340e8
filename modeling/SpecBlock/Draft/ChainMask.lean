import Mathlib.Analysis.SpecialFunctions.Log.Basic
import SpecBlock.Building.TreePrune
import SpecBlock.Draft.TrainingLoss

/-!
# Which positions the chain masks leave in a loss

A slot's draft loss should count a position when the position is part of the data, when its target
for the slot can be expressed in the draft vocabulary, and when all its slots before had such a
target, which the draft's first choice met; the rank loss likewise, with the predicted rank class in
the place of the first choice. Blocks behind the first start a chain at every position of the data.

The masks are products. The chain is multiplied by whether a slot's first choice was the greatest
entry of the target row, and that row has a greatest entry also when the target's own choice is not
in the draft vocabulary, or when there is no target at all. And the chain starts from the validity of
the first target in the sequence for every block, also for those that are ahead of it.
-/

namespace SpecBlock.Draft

variable {R : Type} [Field R] [LinearOrder R]
variable (exp log : R → R) (topk : Nat → List R → List (R × Nat)) (inputs : LossInputs R)

/-- A position the data mask keeps. -/
def InData (b i : Nat) : Prop := inputs.lossMask b i ≠ 0

/-- The slot's target is in the data and in the draft vocabulary. -/
def ValidTarget (k b i : Nat) : Prop := positionMaskAt inputs k b i ≠ 0

/-- The draft's first choice for a slot is the target. -/
def Matched (k b i : Nat) : Prop := predToken inputs k b i = targetToken inputs k b i

/-- The rank class predicted for a slot is that of the target. -/
def RankMatched (k b i : Nat) : Prop := rankPred inputs k b i = rankLabel topk inputs k b i

instance (k b i : Nat) : Decidable (Matched inputs k b i) :=
  inferInstanceAs (Decidable (_ = _))

instance (k b i : Nat) : Decidable (RankMatched topk inputs k b i) :=
  inferInstanceAs (Decidable (_ = _))

/-- The slot reads a target for the position. -/
def Read (k b i : Nat) : Prop := b < inputs.B ∧ k < inputs.K ∧ i < inputs.S - k

/-- The position has a weight in the slot's draft loss. -/
def DraftCounted (k b i : Nat) : Prop :=
  Read inputs k b i ∧
    combinedMask inputs (slotState exp log topk inputs k).chainMask k b i ≠ 0

/-- The position has a weight in the slot's rank loss. -/
def RankCounted (k b i : Nat) : Prop :=
  Read inputs k b i ∧
    effectiveMask topk inputs (slotState exp log topk inputs k).rankChain k b i ≠ 0

/-- What a chain through given links ought to let through. -/
def Admitted (link : Nat → Nat → Nat → Prop) (k b i : Nat) : Prop :=
  InData inputs b i ∧ ValidTarget inputs k b i ∧
    ∀ earlier < k, ValidTarget inputs earlier b i ∧ link earlier b i

/-- The chain masks mean what they say: what is counted is admitted, and behind the first block what
is admitted is counted. -/
structure ChainMeaning : Prop where
  draft : ∀ k b i, DraftCounted exp log topk inputs k b i →
    Admitted inputs (Matched inputs) k b i
  rank : ∀ k b i, RankCounted exp log topk inputs k b i →
    Admitted inputs (RankMatched topk inputs) k b i
  laterDraft : 0 < inputs.targetOffset → ∀ k b i, Read inputs k b i →
    Admitted inputs (Matched inputs) k b i → DraftCounted exp log topk inputs k b i
  laterRank : 0 < inputs.targetOffset → ∀ k b i, Read inputs k b i →
    Admitted inputs (RankMatched topk inputs) k b i → RankCounted exp log topk inputs k b i

/-- A position of the data whose slot `k` has no valid target, while the one behind it has: a chain
through given links passes over the gap. -/
def Bridged (link : Nat → Nat → Nat → Prop) (k b i : Nat) : Prop :=
  Read inputs (k + 1) b i ∧ InData inputs b i ∧ inputs.positionMaskFull b i ≠ 0 ∧
    ¬ ValidTarget inputs k b i ∧ ValidTarget inputs (k + 1) b i ∧ ∀ earlier ≤ k, link earlier b i

/-- Nothing stands between the masks and their meaning: no chain passes over a gap, and behind the
first block the first target of the sequence is valid wherever the block's first target is. -/
structure MasksFit : Prop where
  draft : ∀ k b i, ¬ Bridged inputs (Matched inputs) k b i
  rank : ∀ k b i, ¬ Bridged inputs (RankMatched topk inputs) k b i
  later : 0 < inputs.targetOffset → ∀ b i, Read inputs 0 b i → InData inputs b i →
    ValidTarget inputs 0 b i → inputs.positionMaskFull b i ≠ 0

variable {exp log topk inputs}

section chains

/-- What the masks let through a chain: the chain starts at the first target of the sequence. -/
def Passed (inputs : LossInputs R) (link : Nat → Nat → Nat → Prop) (k b i : Nat) : Prop :=
  ValidTarget inputs k b i ∧ InData inputs b i ∧ inputs.positionMaskFull b i ≠ 0 ∧
    ∀ earlier < k, link earlier b i

variable {link : Nat → Nat → Nat → Prop} {k b i : Nat}

/-- Between a slot without a valid target and a later one with one, some slot is the last gap. -/
theorem last_gap (valid : Nat → Prop) {gap : Nat} (reached : gap < k) (invalid : ¬ valid gap)
    (last : valid k) : ∃ place < k, ¬ valid place ∧ valid (place + 1) := by
  induction k with
  | zero => exact absurd reached (Nat.not_lt_zero gap)
  | succ k ih =>
    by_cases before : valid k
    · have earlier : gap < k := by
        have different : gap ≠ k := fun same => invalid (same ▸ before)
        omega
      obtain ⟨place, inside, facts⟩ := ih earlier before
      exact ⟨place, Nat.lt_succ_of_lt inside, facts⟩
    · exact ⟨k, Nat.lt_succ_self k, before, last⟩

omit [LinearOrder R] in
/-- Where no gap is bridged, a position that passes is admitted. -/
theorem admitted_of_passed (unbridged : ∀ k b i, ¬ Bridged inputs link k b i)
    (read : Read inputs k b i) (passed : Passed inputs link k b i) : Admitted inputs link k b i := by
  obtain ⟨valid, inData, first, linked⟩ := passed
  obtain ⟨inBatch, inBlock, inRow⟩ := read
  refine ⟨inData, valid, fun earlier before => ⟨?_, linked earlier before⟩⟩
  intro invalid
  obtain ⟨place, inside, gap, next⟩ := last_gap (fun slot => ValidTarget inputs slot b i) before
    (not_not.mpr invalid) valid
  exact unbridged place b i ⟨⟨inBatch, by omega, by omega⟩, inData, first, gap, next,
    fun slot upTo => linked slot (by omega)⟩

omit [LinearOrder R] in
/-- A bridged gap lets a position pass at the next slot that is not admitted there. -/
theorem passed_of_bridged (bridged : Bridged inputs link k b i) :
    Read inputs (k + 1) b i ∧ Passed inputs link (k + 1) b i ∧ ¬ Admitted inputs link (k + 1) b i := by
  obtain ⟨read, inData, first, gap, next, linked⟩ := bridged
  refine ⟨read, ⟨next, inData, first, fun slot upTo => linked slot (by omega)⟩, ?_⟩
  rintro ⟨-, -, earlier⟩
  exact gap (earlier k (Nat.lt_succ_self k)).1

omit [LinearOrder R] in
/-- Where the first target of the sequence is valid, an admitted position passes. -/
theorem passed_of_admitted (first : inputs.positionMaskFull b i ≠ 0)
    (admitted : Admitted inputs link k b i) : Passed inputs link k b i :=
  ⟨admitted.2.1, admitted.1, first, fun earlier before => (admitted.2.2 earlier before).2⟩

omit [LinearOrder R] in
/-- At the first slot data and a valid target are all that is asked for. -/
theorem admitted_zero (inData : InData inputs b i) (valid : ValidTarget inputs 0 b i) :
    Admitted inputs link 0 b i :=
  ⟨inData, valid, fun earlier before => absurd before (Nat.not_lt_zero earlier)⟩

omit [LinearOrder R] in
/-- An admitted position has a valid target at the first slot. -/
theorem Admitted.first (admitted : Admitted inputs link k b i) : ValidTarget inputs 0 b i := by
  rcases Nat.eq_zero_or_pos k with start | later
  · subst start
    exact admitted.2.1
  · exact (admitted.2.2 0 later).1

end chains

section masks

variable {k b i : Nat}

omit [LinearOrder R] in
/-- A mask narrowed at every slot is left where it was at the start and every slot kept it. -/
theorem narrowed_ne_zero (mask : Nat → Nat → Nat → R) {kept : Nat → Nat → Nat → Bool}
    (turn : ∀ k, mask (k + 1) = narrowed inputs k (mask k) (kept k)) (inRow : i < inputs.S - k) :
    mask k b i ≠ 0 ↔ mask 0 b i ≠ 0 ∧ ∀ earlier < k, kept earlier b i = true := by
  induction k with
  | zero => simp
  | succ k ih =>
    have before : i < inputs.S - k := by omega
    have step : mask (k + 1) b i = mask k b i * flag (kept k b i) := by
      rw [turn, narrowed, if_pos before]
    have flagged : (flag (kept k b i) : R) ≠ 0 ↔ kept k b i = true := by
      cases kept k b i <;> simp [flag]
    rw [step, mul_ne_zero_iff, ih before, flagged, and_assoc,
      Nat.forall_lt_succ_right]

theorem slotState_succ (k : Nat) :
    slotState exp log topk inputs (k + 1) =
      slotTurn exp log topk inputs (slotState exp log topk inputs k) k := by
  rw [slotState, List.range_succ, List.foldl_append]
  rfl

omit [LinearOrder R] in
theorem narrowed_done (mask : Nat → Nat → R) (kept : Nat → Nat → Bool) (done : inputs.S ≤ k) :
    narrowed inputs k mask kept = mask := by
  funext b i
  rw [narrowed, if_neg (by omega)]

/-- A turn narrows the chain mask to the positions where the first choice was the target. -/
theorem chainMask_turn (k : Nat) :
    (slotState exp log topk inputs (k + 1)).chainMask =
      narrowed inputs k (slotState exp log topk inputs k).chainMask
        (fun b i => decide (Matched inputs k b i)) := by
  rw [slotState_succ, slotTurn]
  split
  · next done => rw [narrowed_done _ _ done]
  · rfl

/-- A turn narrows the rank chain to the positions whose rank class was predicted. -/
theorem rankChain_turn (k : Nat) :
    (slotState exp log topk inputs (k + 1)).rankChain =
      narrowed inputs k (slotState exp log topk inputs k).rankChain
        (fun b i => decide (RankMatched topk inputs k b i)) := by
  rw [slotState_succ, slotTurn]
  split
  · next done => rw [narrowed_done _ _ done]
  · rfl

/-- What has a weight in the draft loss is what passes the chain of first choices. -/
theorem draftCounted_iff : DraftCounted exp log topk inputs k b i ↔
    Read inputs k b i ∧ Passed inputs (Matched inputs) k b i := by
  refine and_congr_right fun read => ?_
  have chain := narrowed_ne_zero (b := b) (k := k)
    (fun k => (slotState exp log topk inputs k).chainMask) chainMask_turn read.2.2
  have start : (slotState exp log topk inputs 0).chainMask b i = initMask inputs b i := rfl
  simp only [start, decide_eq_true_eq] at chain
  rw [combinedMask, mul_ne_zero_iff, chain, initMask, mul_ne_zero_iff, and_assoc]
  exact Iff.rfl

variable [IsStrictOrderedRing R]

theorem effectiveMask_ne_zero (rankChain : Nat → Nat → R) :
    effectiveMask topk inputs rankChain k b i ≠ 0 ↔ rankMask inputs rankChain k b i ≠ 0 := by
  rw [effectiveMask]
  split
  · next budgeted =>
    have weight (label : Nat) : 0 < freqW topk inputs rankChain k label :=
      lt_min (div_pos (Int.cast_pos.mpr budgeted) (lt_max_of_lt_right one_pos)) one_pos
    rw [mul_ne_zero_iff, and_iff_right (weight _).ne']
  · exact Iff.rfl

/-- What has a weight in the rank loss is what passes the chain of rank classes. -/
theorem rankCounted_iff : RankCounted exp log topk inputs k b i ↔
    Read inputs k b i ∧ Passed inputs (RankMatched topk inputs) k b i := by
  refine and_congr_right fun read => ?_
  have chain := narrowed_ne_zero (b := b) (k := k)
    (fun k => (slotState exp log topk inputs k).rankChain) rankChain_turn read.2.2
  have start : (slotState exp log topk inputs 0).rankChain b i = initMask inputs b i := rfl
  simp only [start, decide_eq_true_eq] at chain
  rw [effectiveMask_ne_zero, rankMask, mul_ne_zero_iff, chain, initMask, mul_ne_zero_iff, and_comm,
    and_assoc]
  exact Iff.rfl

theorem chainMeaning_of_fit (fit : MasksFit topk inputs) : ChainMeaning exp log topk inputs := by
  have first {link : Nat → Nat → Nat → Prop} {k b i : Nat} (later : 0 < inputs.targetOffset)
      (read : Read inputs k b i) (admitted : Admitted inputs link k b i) :
      inputs.positionMaskFull b i ≠ 0 := by
    have readFirst : Read inputs 0 b i := by
      obtain ⟨inBatch, inBlock, inRow⟩ := read
      exact ⟨inBatch, by omega, by omega⟩
    exact fit.later later b i readFirst admitted.1 admitted.first
  constructor
  · intro k b i counted
    obtain ⟨read, passed⟩ := draftCounted_iff.mp counted
    exact admitted_of_passed fit.draft read passed
  · intro k b i counted
    obtain ⟨read, passed⟩ := rankCounted_iff.mp counted
    exact admitted_of_passed fit.rank read passed
  · intro later k b i read admitted
    exact draftCounted_iff.mpr ⟨read, passed_of_admitted (first later read admitted) admitted⟩
  · intro later k b i read admitted
    exact rankCounted_iff.mpr ⟨read, passed_of_admitted (first later read admitted) admitted⟩

theorem fit_of_chainMeaning (meaning : ChainMeaning exp log topk inputs) : MasksFit topk inputs := by
  constructor
  · intro k b i bridged
    obtain ⟨read, passed, outside⟩ := passed_of_bridged bridged
    exact outside (meaning.draft _ b i (draftCounted_iff.mpr ⟨read, passed⟩))
  · intro k b i bridged
    obtain ⟨read, passed, outside⟩ := passed_of_bridged bridged
    exact outside (meaning.rank _ b i (rankCounted_iff.mpr ⟨read, passed⟩))
  · intro later b i read inData valid
    have counted := meaning.laterDraft later 0 b i read (admitted_zero inData valid)
    exact (draftCounted_iff.mp counted).2.2.2.1

/-- The chain masks mean what they say exactly when no chain passes over a slot without a valid
target and, behind the first block, the first target in the sequence is valid wherever the block's
own first target is. -/
theorem chain_masks_mean_iff : ChainMeaning exp log topk inputs ↔ MasksFit topk inputs :=
  ⟨fit_of_chainMeaning, chainMeaning_of_fit⟩

end masks

section gap

open Building

/-- The greatest entries by a stable sort. -/
def stableTopk {R : Type} [LinearOrder R] [Inhabited R] (count : Nat) (row : List R) :
    List (R × Nat) :=
  ((stableArgsort row).take count).map (fun index => (row.getD index default, index))

/-- Three positions, two blocks of three slots, the second one ahead by one. The draft vocabulary
lacks one token, which is the target at the middle position. -/
def gapStep (R : Type) [Field R] [LinearOrder R] : TrainingStep R where
  B := 1
  S := 3
  K := 3
  rankClasses := 4
  numTttBlocks := 2
  rankStartStep := 2000
  globalStep := 2000
  budgetPerClass := 10
  draftLossTopk := -1
  t2d := List.replicate 10 true ++ [false]
  target := fun _ i => List.replicate 10 0 ++ [if i = 1 then 1 else -1]
  lossMask := fun _ _ => 1
  draftLogits := fun _ _ _ _ => List.replicate 10 0
  draftRankLogits := fun _ _ _ _ => List.replicate 4 0
  blockLength := fun _ => 1
  drawn := fun _ => ⟨Nat.le_refl 1, Nat.le_add_left 1 2⟩

theorem argmax_replicate {R : Type} [Field R] [LinearOrder R] (entry : R) (count : Nat) :
    argmax (List.replicate (count + 1) entry) = 0 := by
  rw [argmax, List.length_replicate, List.range_succ_eq_map, List.find?_cons_of_pos]
  · rfl
  · simp

theorem gapStep_mapped (b i : Nat) :
    mappedEntries (gapStep ℝ).t2d ((gapStep ℝ).target b i) = List.replicate 10 0 := by
  simp [mappedEntries, gapStep, List.replicate]

/-- Inside the sequence the first token is the target's in the draft vocabulary. -/
theorem gapStep_target {i : Nat} (inside : i < 3) :
    argmax (targetPPadded Real.exp (gapStep ℝ) 0 i) = 0 := by
  rw [targetPPadded, if_pos (show i < (gapStep ℝ).S from inside), computeTargetP, gapStep_mapped,
    softmaxRow, List.map_replicate]
  exact argmax_replicate _ 9

/-- The middle position has no valid target, the others have. -/
theorem gapStep_valid {i : Nat} (inside : i < 3) :
    positionMaskPadded (gapStep ℝ) 0 i ≠ 0 ↔ i ≠ 1 := by
  rw [positionMaskPadded, if_pos (show i < (gapStep ℝ).S from inside), computePositionMask]
  by_cases middle : i = 1
  · norm_num [gapStep, argmax, flag, middle, List.replicate, List.range, List.range.loop]
  · norm_num [gapStep, argmax, flag, middle, List.replicate, List.range, List.range.loop]

/-- In the first block the chain of the first position passes over the middle one. -/
theorem gapStep_bridged (next : Option Nat) :
    Bridged (blockCall Real.exp (gapStep ℝ) 0 0 next)
      (Matched (blockCall Real.exp (gapStep ℝ) 0 0 next)) 1 0 0 := by
  have first : positionMaskPadded (gapStep ℝ) 0 0 ≠ 0 := (gapStep_valid (by decide)).mpr (by decide)
  have last : positionMaskPadded (gapStep ℝ) 0 2 ≠ 0 := (gapStep_valid (by decide)).mpr (by decide)
  refine ⟨⟨Nat.zero_lt_one, Nat.lt_succ_self 2, Nat.zero_lt_one⟩, one_ne_zero, first, ?_, last,
    fun earlier upTo => ?_⟩
  · intro reached
    exact (gapStep_valid (i := 1) (by decide)).mp reached rfl
  · have target : targetToken (blockCall Real.exp (gapStep ℝ) 0 0 next) earlier 0 0 = 0 := by
      have place : 0 + earlier + 0 < 3 := by omega
      exact gapStep_target place
    rw [Matched, target]
    exact argmax_replicate (0 : ℝ) 9

/-- With real exponentials and logarithms the masks of a second block mean what they say exactly when
they fit. -/
theorem chain_masks_mean_iff_gap :
    ChainMeaning Real.exp Real.log stableTopk (blockCall Real.exp (gapStep ℝ) 1 1 none) ↔
      MasksFit stableTopk (blockCall Real.exp (gapStep ℝ) 1 1 none) :=
  chain_masks_mean_iff

/-- A training step with two blocks in neither of which they do: the first block's third slot counts
the first position although the slot before has no target in the draft vocabulary, and the second
block leaves out the middle position for the first block's target there. -/
theorem chain_masks_mislead :
    forwardCalls Real.exp (gapStep ℝ) =
        [blockCall Real.exp (gapStep ℝ) 0 0 (some 1), blockCall Real.exp (gapStep ℝ) 1 1 none] ∧
      ¬ ChainMeaning Real.exp Real.log stableTopk
          (blockCall Real.exp (gapStep ℝ) 0 0 (some 1)) ∧
      ¬ ChainMeaning Real.exp Real.log stableTopk (blockCall Real.exp (gapStep ℝ) 1 1 none) := by
  refine ⟨rfl, fun meaning => ?_, fun meaning => ?_⟩
  · exact (fit_of_chainMeaning meaning).draft 1 0 0 (gapStep_bridged (some 1))
  · have last : positionMaskPadded (gapStep ℝ) 0 2 ≠ 0 :=
      (gapStep_valid (by decide)).mpr (by decide)
    have middle : positionMaskPadded (gapStep ℝ) 0 1 ≠ 0 :=
      (fit_of_chainMeaning meaning).later Nat.zero_lt_one 0 1
        ⟨Nat.zero_lt_one, Nat.zero_lt_succ 2, show 1 < 3 by decide⟩ one_ne_zero last
    exact (gapStep_valid (i := 1) (by decide)).mp middle rfl

end gap

end SpecBlock.Draft
