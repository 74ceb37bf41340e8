import Mathlib.Data.List.Range
import Mathlib.Order.Lattice
import Mathlib.Order.MinMax

/-!
# The branching policy

The number of children of a slot comes from a table by the rank predicted for the slot, except for
slot 0, which gets the beam width. The adaptive modes cut it down where the greedy token is likely.
In block 1, a slot of the last rank class whose table entry is zero gives up: the slots behind it
get nothing.

The policy is written down twice. For arrays in host memory it is a loop over the slots that a slot
giving up breaks off. On the device every slot is computed first, and a running maximum then blanks
the slots from the first one that gives up on. The two differ at that very slot, in the one mode
that does not cut its number of children down to the table entry.
-/

namespace SpecBlock.Building

/-- What the policy reads of the settings, and whether the probability of a log-probability is at
least so many hundredths. A probability that is at least some value is at least any lower one. -/
structure SlotSettings (S : Type) where
  beamWidth : Nat
  rankSlotTopk : List Nat
  rankClasses : Nat
  adaptiveSlot0 : Int
  adaptiveAll : Int
  atLeast : S → Nat → Bool
  falling : ∀ (lp : S) (low high : Nat), low ≤ high → atLeast lp high = true → atLeast lp low = true

namespace Policy

variable {S : Type} (settings : SlotSettings S)

/-- `give_up_class`. -/
def giveUpClass : Nat := settings.rankClasses - 1

/-- The table entry of a rank. -/
def tableTopk (rank : Nat) : Nat := settings.rankSlotTopk.getD rank 0

/-- `_slot0_bw` of the loop and `slot0_t` of the vectors. -/
def slot0Bw (lp : S) : Nat :=
  let p0 := settings.atLeast lp
  if settings.adaptiveSlot0 = 0 then settings.beamWidth
  else if settings.adaptiveSlot0 = 2 then
    if p0 95 then min 2 settings.beamWidth
    else if p0 85 then min 4 settings.beamWidth
    else if p0 60 then min 7 settings.beamWidth
    else settings.beamWidth
  else if settings.adaptiveSlot0 = 3 then
    if p0 95 then 1
    else if p0 90 then min 2 settings.beamWidth
    else if p0 80 then min 4 settings.beamWidth
    else if p0 60 then min 7 settings.beamWidth
    else settings.beamWidth
  else if settings.adaptiveSlot0 = 4 then
    if p0 90 then 1
    else if p0 80 then min 3 settings.beamWidth
    else if p0 60 then min 6 settings.beamWidth
    else settings.beamWidth
  else
    if p0 90 then min 3 settings.beamWidth
    else if p0 80 then min 5 settings.beamWidth
    else if p0 60 then min 8 settings.beamWidth
    else settings.beamWidth

/-- What block 1 gives a slot in an adaptive mode. Mode 2 does not look at the table entry of a
likely slot. -/
def adaptiveTopk (lp : S) (baseTopk : Nat) : Nat :=
  let pk := settings.atLeast lp
  if settings.adaptiveAll = 2 then
    if pk 90 then 1 else if pk 70 then 2 else if pk 50 then 3 else baseTopk
  else
    if pk 95 then min 2 baseTopk else if pk 85 then min 3 baseTopk else baseTopk

section block1

variable (glp : Nat → S) (rp : Nat → Nat)

/-- `slot_topks` before the slots behind a give-up are blanked. -/
def slotTopk (k : Nat) : Nat :=
  if k = 0 then slot0Bw settings (glp 0)
  else if settings.adaptiveAll ≠ 0 then
    adaptiveTopk settings (glp k) (tableTopk settings (rp k))
  else tableTopk settings (rp k)

/-- `torch.cummax`. -/
def cummax (vector : Nat → Nat) : Nat → Nat
  | 0 => vector 0
  | k + 1 => max (cummax vector k) (vector (k + 1))

/-- `give_up_trigger_k_ge_1`. -/
def giveUpTrigger (k : Nat) : Nat :=
  if (rp k = giveUpClass settings ∧ tableTopk settings (rp k) = 0) ∧ 0 < k then 1 else 0

/-- `compute_slot_topks_block1_gpu`. Slots from the first one that gives up on get no children; a
maximum over the slots so far takes the place of the loop's early end. -/
def computeSlotTopksBlock1Gpu (K : Nat) : List Nat :=
  (List.range K).map (fun k =>
    if 1 < K ∧ cummax (giveUpTrigger settings rp) k ≠ 0 then 0 else slotTopk settings glp rp k)

/-- `compute_slot_topks_block1_gpu_batched`: the same operations over a row for each request. -/
def computeSlotTopksBlock1GpuBatched (glp : Nat → Nat → S) (rp : Nat → Nat → Nat) (B K : Nat) :
    List (List Nat) :=
  (List.range B).map (fun b => computeSlotTopksBlock1Gpu settings (glp b) (rp b) K)

/-- The loop of `compute_slot_topks_block1`, from a slot on, with so many slots left. What a break
leaves is zero. -/
def slotLoop (k : Nat) : Nat → List Nat
  | 0 => []
  | remaining + 1 =>
    if k = 0 then slot0Bw settings (glp 0) :: slotLoop (k + 1) remaining
    else
      let baseTopk := tableTopk settings (rp k)
      let stops := rp k = giveUpClass settings ∧ baseTopk = 0
      if settings.adaptiveAll ≠ 0 then
        -- The entry is written before the break.
        adaptiveTopk settings (glp k) baseTopk ::
          if stops then List.replicate remaining 0 else slotLoop (k + 1) remaining
      else if stops then List.replicate (remaining + 1) 0
      else baseTopk :: slotLoop (k + 1) remaining

/-- `compute_slot_topks_block1`. -/
def computeSlotTopksBlock1 (K : Nat) : List Nat := slotLoop settings glp rp 0 K

end block1

section bfs

variable (glp : Nat → Nat → S) (rp : Nat → Nat → Nat)

/-- `compute_slot_topks_bfs_gpu`. Later blocks read the table for every slot of every leaf and never
give up. -/
def computeSlotTopksBfsGpu (leaf slot : Nat) : Nat :=
  let base := tableTopk settings (rp leaf slot)
  let pk := settings.atLeast (glp leaf slot)
  if settings.adaptiveAll = 0 then base
  else if settings.adaptiveAll = 2 then
    if pk 90 then 1 else if pk 70 then min 2 base else if pk 50 then min 3 base else base
  else
    if pk 95 then min 2 base else if pk 85 then min 3 base else base

/-- `compute_slot_topks_bfs`: one `np.where` after the other. A probability is below a value when
it is not at least that much. -/
def computeSlotTopksBfs (leaf slot : Nat) : Nat :=
  let base := tableTopk settings (rp leaf slot)
  let pk := settings.atLeast (glp leaf slot)
  if settings.adaptiveAll = 0 then base
  else if settings.adaptiveAll = 2 then
    let first := if pk 90 then 1 else base
    let second := if pk 70 ∧ ¬ pk 90 then min 2 base else first
    if pk 50 ∧ ¬ pk 70 then min 3 base else second
  else
    let first := if pk 95 then min 2 base else base
    if pk 85 ∧ ¬ pk 95 then min 3 base else first

end bfs

section agreement

variable {settings} {glp : Nat → S} {rp : Nat → Nat}

/-- A slot gives up: it is not the first one, and its rank is the last class, without children. -/
def GivesUp (settings : SlotSettings S) (rp : Nat → Nat) (k : Nat) : Prop :=
  0 < k ∧ rp k = giveUpClass settings ∧ tableTopk settings (rp k) = 0

instance (settings : SlotSettings S) (rp : Nat → Nat) (k : Nat) : Decidable (GivesUp settings rp k) :=
  inferInstanceAs (Decidable (_ ∧ _ ∧ _))

theorem giveUpTrigger_ne_zero (k : Nat) : giveUpTrigger settings rp k ≠ 0 ↔ GivesUp settings rp k := by
  rw [giveUpTrigger, GivesUp]
  split
  · rename_i triggered
    exact ⟨fun _ => ⟨triggered.2, triggered.1⟩, fun _ => Nat.one_ne_zero⟩
  · rename_i quiet
    exact ⟨fun zero => absurd rfl zero, fun stops => absurd ⟨stops.2, stops.1⟩ quiet⟩

theorem cummax_ne_zero (vector : Nat → Nat) (k : Nat) :
    cummax vector k ≠ 0 ↔ ∃ g < k + 1, vector g ≠ 0 := by
  induction k with
  | zero => simp [cummax]
  | succ k ih =>
    rw [cummax]
    constructor
    · intro reached
      by_cases here : vector (k + 1) = 0
      · rw [here, Nat.max_zero] at reached
        obtain ⟨g, low, positive⟩ := ih.mp reached
        exact ⟨g, by omega, positive⟩
      · exact ⟨k + 1, by omega, here⟩
    · rintro ⟨g, low, positive⟩
      rcases Nat.lt_succ_iff_lt_or_eq.mp low with earlier | rfl
      · have reached := ih.mpr ⟨g, earlier, positive⟩
        omega
      · omega

/-- The vectors blank a slot when it or an earlier one gives up. -/
theorem computeSlotTopksBlock1Gpu_eq (K : Nat) :
    computeSlotTopksBlock1Gpu settings glp rp K = (List.range K).map (fun k =>
      if ∃ g < k + 1, GivesUp settings rp g then 0 else slotTopk settings glp rp k) := by
  refine List.map_congr_left (fun k member => ?_)
  have inside := List.mem_range.mp member
  have reached : (1 < K ∧ cummax (giveUpTrigger settings rp) k ≠ 0) ↔
      ∃ g < k + 1, GivesUp settings rp g := by
    simp only [cummax_ne_zero, giveUpTrigger_ne_zero]
    constructor
    · exact And.right
    · rintro ⟨g, low, stops⟩
      have behind := stops.1
      exact ⟨by omega, g, low, stops⟩
  simp only [reached]

/-- The loop leaves a slot zero when an earlier one gives up. -/
theorem slotLoop_eq (remaining k : Nat) (quiet : ∀ g < k, ¬ GivesUp settings rp g) :
    slotLoop settings glp rp k remaining = (List.range' k remaining).map (fun j =>
      if ∃ g < j, GivesUp settings rp g then 0 else slotTopk settings glp rp j) := by
  induction remaining generalizing k with
  | zero => rfl
  | succ remaining ih =>
    have first : ¬ ∃ g < k, GivesUp settings rp g := fun ⟨g, low, stops⟩ => quiet g low stops
    have next : ¬ GivesUp settings rp k → ∀ g < k + 1, ¬ GivesUp settings rp g := by
      intro going g low
      rcases Nat.lt_succ_iff_lt_or_eq.mp low with earlier | rfl
      · exact quiet g earlier
      · exact going
    have rest : GivesUp settings rp k → List.replicate remaining 0 =
        (List.range' (k + 1) remaining).map (fun j =>
          if ∃ g < j, GivesUp settings rp g then 0 else slotTopk settings glp rp j) := by
      intro stops
      symm
      rw [List.eq_replicate_iff]
      constructor
      · simp
      · intro topk member
        obtain ⟨j, listed, rfl⟩ := List.mem_map.mp member
        have behind := (List.mem_range'_1.mp listed).1
        rw [if_pos ⟨k, by omega, stops⟩]
    rw [List.range'_succ, List.map_cons, if_neg first, slotLoop]
    by_cases zero : k = 0
    · subst zero
      have going : ¬ GivesUp settings rp 0 := fun stops => absurd stops.1 (Nat.lt_irrefl 0)
      rw [if_pos rfl, ih 1 (next going), slotTopk, if_pos rfl]
    · rw [if_neg zero, slotTopk, if_neg zero]
      by_cases stops : rp k = giveUpClass settings ∧ tableTopk settings (rp k) = 0
      · have gaveUp : GivesUp settings rp k := ⟨Nat.pos_of_ne_zero zero, stops⟩
        by_cases adaptive : settings.adaptiveAll ≠ 0
        · simp only [if_pos adaptive, if_pos stops, rest gaveUp]
        · simp only [if_neg adaptive, if_pos stops, List.replicate_succ, rest gaveUp]
          rw [stops.2]
      · have going : ¬ GivesUp settings rp k := fun gaveUp => stops gaveUp.2
        rw [← ih (k + 1) (next going)]
        by_cases adaptive : settings.adaptiveAll ≠ 0
        · simp only [if_pos adaptive, if_neg stops]
        · simp only [if_neg adaptive, if_neg stops]

/-- A slot that gives up is given children by the loop in mode 2, when it is likely enough. -/
theorem slotTopk_gaveUp {k : Nat} (stops : GivesUp settings rp k) :
    slotTopk settings glp rp k = 0 ↔
      ¬ (settings.adaptiveAll = 2 ∧ settings.atLeast (glp k) 50 = true) := by
  have behind : k ≠ 0 := Nat.pos_iff_ne_zero.mp stops.1
  rw [slotTopk, if_neg behind, stops.2.2]
  by_cases aggressive : settings.adaptiveAll = 2
  · have high : settings.atLeast (glp k) 90 = true → settings.atLeast (glp k) 50 = true :=
      settings.falling (glp k) 50 90 (by decide)
    have middle : settings.atLeast (glp k) 70 = true → settings.atLeast (glp k) 50 = true :=
      settings.falling (glp k) 50 70 (by decide)
    rw [if_pos (by omega), adaptiveTopk]
    simp only [aggressive, if_true, true_and]
    split
    · rename_i above
      simp [high above]
    · split
      · rename_i above
        simp [middle above]
      · split
        · rename_i above
          simp [above]
        · rename_i low
          simp [low]
  · have zeros : (if settings.adaptiveAll ≠ 0 then adaptiveTopk settings (glp k) 0 else 0) = 0 := by
      simp [adaptiveTopk, aggressive]
    rw [zeros]
    simp [aggressive]

/-- The first slot to give up keeps children in the loop. -/
def KeepsGiveUp (settings : SlotSettings S) (glp : Nat → S) (rp : Nat → Nat) (K : Nat) : Prop :=
  ∃ k < K, (GivesUp settings rp k ∧ ∀ g < k, ¬ GivesUp settings rp g) ∧
    settings.adaptiveAll = 2 ∧ settings.atLeast (glp k) 50 = true

/-- The vectors and the loop agree on block 1 unless the first slot to give up keeps children. -/
theorem block1_eq_iff (K : Nat) :
    computeSlotTopksBlock1Gpu settings glp rp K = computeSlotTopksBlock1 settings glp rp K ↔
      ¬ KeepsGiveUp settings glp rp K := by
  have loop : slotLoop settings glp rp 0 K = _ :=
    slotLoop_eq K 0 (fun g low => absurd low (Nat.not_lt_zero g))
  rw [computeSlotTopksBlock1, loop, computeSlotTopksBlock1Gpu_eq, ← List.range_eq_range',
    List.map_inj_left]
  constructor
  · rintro same ⟨k, inside, ⟨stops, first⟩, likely⟩
    have here := same k (List.mem_range.mpr inside)
    have quiet : ¬ ∃ g < k, GivesUp settings rp g := fun ⟨g, low, gaveUp⟩ => first g low gaveUp
    rw [if_pos ⟨k, Nat.lt_succ_self k, stops⟩, if_neg quiet] at here
    exact (slotTopk_gaveUp stops).mp here.symm likely
  · intro none k member
    by_cases earlier : ∃ g < k, GivesUp settings rp g
    · obtain ⟨g, low, gaveUp⟩ := earlier
      rw [if_pos ⟨g, Nat.lt_succ_of_lt low, gaveUp⟩, if_pos ⟨g, low, gaveUp⟩]
    · rw [if_neg earlier]
      by_cases stops : GivesUp settings rp k
      · have likely : ¬ (settings.adaptiveAll = 2 ∧ settings.atLeast (glp k) 50 = true) := by
          intro likely
          have first : ∀ g < k, ¬ GivesUp settings rp g := fun g low gaveUp => earlier ⟨g, low, gaveUp⟩
          exact none ⟨k, List.mem_range.mp member, ⟨stops, first⟩, likely⟩
        rw [if_pos ⟨k, Nat.lt_succ_self k, stops⟩, (slotTopk_gaveUp stops).mpr likely]
      · have going : ¬ ∃ g < k + 1, GivesUp settings rp g := by
          rintro ⟨g, low, gaveUp⟩
          rcases Nat.lt_succ_iff_lt_or_eq.mp low with before | rfl
          · exact earlier ⟨g, before, gaveUp⟩
          · exact stops gaveUp
        rw [if_neg going]

end agreement

section later

variable {settings} {glp : Nat → Nat → S} {rp : Nat → Nat → Nat}

theorem computeSlotTopksBfs_eq (leaf slot : Nat) :
    computeSlotTopksBfs settings glp rp leaf slot = computeSlotTopksBfsGpu settings glp rp leaf slot := by
  have falling := settings.falling (glp leaf slot)
  have seventy := falling 70 90 (by decide)
  have fifty := falling 50 70 (by decide)
  have eightyFive := falling 85 95 (by decide)
  rw [computeSlotTopksBfs, computeSlotTopksBfsGpu]
  by_cases off : settings.adaptiveAll = 0
  · simp only [if_pos off]
  · by_cases aggressive : settings.adaptiveAll = 2
    · simp only [if_neg off, if_pos aggressive]
      cases high : settings.atLeast (glp leaf slot) 90 with
      | true => simp [seventy high, fifty (seventy high)]
      | false =>
        cases middle : settings.atLeast (glp leaf slot) 70 with
        | true => simp [fifty middle]
        | false => simp
    · simp only [if_neg off, if_neg aggressive]
      cases high : settings.atLeast (glp leaf slot) 95 with
      | true => simp [eightyFive high]
      | false => simp

/-- A slot of a later block gets children beside the greedy one. -/
def Branches (settings : SlotSettings S) (glp : Nat → Nat → S) (rp : Nat → Nat → Nat)
    (leaf slot : Nat) : Prop :=
  1 < tableTopk settings (rp leaf slot) ∧
    ¬ (settings.adaptiveAll = 2 ∧ settings.atLeast (glp leaf slot) 90 = true)

/-- No mode cuts a slot of a later block down. -/
def Uncut (settings : SlotSettings S) (glp : Nat → Nat → S) (leaf slot : Nat) : Prop :=
  settings.adaptiveAll = 0 ∨
    settings.atLeast (glp leaf slot) (if settings.adaptiveAll = 2 then 50 else 85) = false

theorem branches_iff (leaf slot : Nat) :
    1 < computeSlotTopksBfsGpu settings glp rp leaf slot ↔ Branches settings glp rp leaf slot := by
  rw [computeSlotTopksBfsGpu, Branches]
  by_cases off : settings.adaptiveAll = 0
  · simp [off]
  · by_cases aggressive : settings.adaptiveAll = 2
    · cases high : settings.atLeast (glp leaf slot) 90 with
      | true => simp [aggressive]
      | false =>
        simp only [aggressive, if_true]
        split_ifs <;> simp_all
    · simp only [if_neg off, if_neg aggressive]
      split_ifs <;> simp_all

/-- Which slots get more than three children: those that the table gives them to and that are not
cut down. -/
theorem topk_gt_iff {bound : Nat} (large : 3 ≤ bound) (leaf slot : Nat) :
    bound < computeSlotTopksBfsGpu settings glp rp leaf slot ↔
      bound < tableTopk settings (rp leaf slot) ∧ Uncut settings glp leaf slot := by
  have falling := settings.falling (glp leaf slot)
  have seventy := falling 50 70 (by decide)
  have ninety := falling 50 90 (by decide)
  have eightyFive := falling 85 95 (by decide)
  rw [computeSlotTopksBfsGpu, Uncut]
  by_cases off : settings.adaptiveAll = 0
  · simp [off]
  · by_cases aggressive : settings.adaptiveAll = 2
    · simp only [aggressive, if_true]
      split_ifs <;> (simp_all; try omega)
    · simp only [if_neg off, if_neg aggressive]
      split_ifs <;> (simp_all; try omega)

end later

end Policy

end SpecBlock.Building
