import Mathlib.Tactic.Abel
import SpecBlock.Building.TritonTree

/-!
# The CUDA and the Triton tree builder agree

The serial loops of the CUDA kernels and the masked tiles of the Triton kernels store the same
rows at the same places, as long as no slot has more children than the tables have columns and the
columns fit the tile. The places are consecutive: the chain, or the chains of all leaves, come
first, and every alternative lies behind the alternatives of the earlier slots and leaves. So no
two stores meet, each place is written, and the order in which blocks, programs and lanes run
does not matter.
-/

namespace SpecBlock.Building
open Segments Stores

variable {S : Type} [AddCommGroup S]

section vectors

theorem cumsum_eq_before (counts : Nat → Nat) (lane : Nat) :
    Triton.cumsum counts lane = before counts (lane + 1) := by
  induction lane with
  | zero => simp [Triton.cumsum]
  | succ lane ih => rw [Triton.cumsum, ih]; rfl

theorem cumsum_sub (counts : Nat → Nat) (lane : Nat) :
    Triton.cumsum counts lane - counts lane = before counts lane := by
  rw [cumsum_eq_before, before_succ, Nat.add_sub_cancel_right]

theorem cumsum_eq_runningSum (lps : Nat → S) (lane : Nat) :
    Triton.cumsum lps lane = Cuda.runningSum lps (lane + 1) := by
  induction lane with
  | zero => simp [Triton.cumsum, Cuda.runningSum]
  | succ lane ih => rw [Triton.cumsum, ih]; rfl

theorem cumsum_sub_self (lps : Nat → S) (lane : Nat) :
    Triton.cumsum lps lane - lps lane = Cuda.runningSum lps lane := by
  rw [cumsum_eq_runningSum, Cuda.runningSum]
  abel

theorem sum_succ {M : Type} [AddMonoid M] (lanes : Nat) (vector : Nat → M) :
    Triton.sum (lanes + 1) vector = Triton.sum lanes vector + vector lanes := by
  simp [Triton.sum, List.range_succ]

theorem sum_eq_before (counts : Nat → Nat) (lanes : Nat) :
    Triton.sum lanes counts = before counts lanes := by
  induction lanes with
  | zero => rfl
  | succ lanes ih => rw [sum_succ, ih, before_succ]

theorem sum_match {M : Type} [AddMonoid M] (vector : Nat → M) {lane lanes : Nat}
    (inside : lane < lanes) :
    Triton.sum lanes (fun other => if lane = other then vector other else 0) = vector lane := by
  have nothing : ∀ lanes ≤ lane,
      Triton.sum lanes (fun other => if lane = other then vector other else 0) = 0 := by
    intro lanes few
    induction lanes with
    | zero => rfl
    | succ lanes ih =>
      rw [sum_succ, ih (by omega), if_neg (by omega), add_zero]
  induction lanes with
  | zero => exact absurd inside (Nat.not_lt_zero _)
  | succ lanes ih =>
    rw [sum_succ]
    rcases Nat.lt_succ_iff_lt_or_eq.mp inside with earlier | rfl
    · rw [ih earlier, if_neg (by omega), add_zero]
    · rw [nothing lane (Nat.le_refl _), if_pos rfl, zero_add]

/-- The first rank that is not zero, found by the lane at which their count gets to one. -/
theorem first_nonzero (ranks : Nat → Nat) (lanes : Nat) :
    let nonZero := fun lane => if ranks lane = 0 then 0 else 1
    let first := Triton.sum lanes (fun lane =>
      if Triton.cumsum nonZero lane = 1 ∧ nonZero lane = 1 then ranks lane else 0)
    (match ((List.range lanes).map ranks).find? (fun rank => rank != 0) with
      | some rank => 0 < Triton.sum lanes nonZero ∧ first = rank
      | none => Triton.sum lanes nonZero = 0 ∧ first = 0) := by
  intro nonZero first
  induction lanes with
  | zero => exact ⟨rfl, rfl⟩
  | succ lanes ih =>
    have counted : Triton.cumsum nonZero lanes = Triton.sum lanes nonZero + nonZero lanes := by
      rw [cumsum_eq_before, before_succ, sum_eq_before]
    have total := sum_succ lanes nonZero
    have firsts := sum_succ lanes (fun lane =>
      if Triton.cumsum nonZero lane = 1 ∧ nonZero lane = 1 then ranks lane else 0)
    simp only [first]
    rw [List.range_succ, List.map_append, List.find?_append, firsts, total, counted]
    cases found : ((List.range lanes).map ranks).find? (fun rank => rank != 0) with
    | some rank =>
      rw [found] at ih
      obtain ⟨seen, same⟩ := ih
      have later : ¬ (Triton.sum lanes nonZero + nonZero lanes = 1 ∧ nonZero lanes = 1) := by omega
      simp only [Option.some_or, if_neg later]
      exact ⟨by omega, same⟩
    | none =>
      rw [found] at ih
      obtain ⟨nothing, same⟩ := ih
      by_cases zero : ranks lanes = 0
      · have zeros : nonZero lanes = 0 := if_pos zero
        simp [nothing, zeros, zero, same]
      · have one : nonZero lanes = 1 := if_neg zero
        simp [nothing, one, zero, same]

end vectors

section tile

variable {K : Nat} {counts : Nat → Nat} {valid : Nat → Bool}

/-- The lanes that a mask selects from a tile of sixteen columns a slot. -/
theorem tileLanes_eq (narrow : ∀ k < K, counts k ≤ 16)
    (selects : ∀ lane < K * 16, valid lane = decide (lane % 16 < counts (lane / 16))) :
    (List.range (K * 16)).filter valid = spread counts K (fun k index => k * 16 + index) := by
  rw [← filter_tile K narrow]
  exact List.filter_congr (fun lane member => selects lane (List.mem_range.mp member))

theorem tileRank_eq (narrow : ∀ k < K, counts k ≤ 16)
    (selects : ∀ lane < K * 16, valid lane = decide (lane % 16 < counts (lane / 16)))
    {k index : Nat} (slot : k < K) (inside : index < counts k) :
    Triton.cumsum (fun lane => (valid lane).toNat) (k * 16 + index) -
      (valid (k * 16 + index)).toNat = before counts k + index := by
  have column : index < 16 := Nat.lt_of_lt_of_le inside (narrow k slot)
  have lanes : before (fun lane => (valid lane).toNat) (k * 16 + index) =
      before (fun lane => if lane % 16 < counts (lane / 16) then 1 else 0) (k * 16 + index) := by
    refine before_congr (fun lane low => ?_)
    have within : lane < K * 16 := by
      have rows := Nat.mul_le_mul_right 16 (Nat.succ_le_of_lt slot)
      rw [Nat.succ_mul] at rows
      omega
    rw [selects lane within]
    by_cases inUse : lane % 16 < counts (lane / 16)
    · simp [inUse]
    · simp [inUse]
  rw [cumsum_sub, lanes, before_tile column (fun earlier low => narrow earlier (low.trans slot)),
    Nat.min_eq_left inside.le]

end tile

section block1

variable {params : BuildParams S} {inputs : Block1Inputs S}

/-- No slot has more children than the tables have columns, and the columns fit the tile. -/
structure Block1Fits (params : BuildParams S) (inputs : Block1Inputs S) : Prop where
  slots : 0 < params.K
  columns : 0 < params.maxTopk
  tile : params.maxTopk ≤ 17
  beam : params.beamWidth ≤ params.maxTopk
  table : ∀ k < params.K, inputs.rankSlotTopkTable (inputs.rankPreds k) ≤ params.maxTopk

omit [AddCommGroup S] in
theorem slotTopks_eq (k : Nat) : Triton.slotTopks params inputs k = Cuda.slotTopk params inputs k := by
  simp only [Triton.slotTopks, Triton.tlWhere, decide_eq_true_eq, Triton.slot0Rule_eq, Triton.slotKRule_eq,
    Cuda.slotTopk]

omit [AddCommGroup S] in
theorem Block1Fits.slotTopk_le (fits : Block1Fits params inputs) {k : Nat} (inside : k < params.K) :
    Cuda.slotTopk params inputs k ≤ params.maxTopk := by
  have beam := fits.beam
  have table := fits.table k inside
  have columns := fits.columns
  have slot0 := applyAdaptiveSlot0_le params.adaptiveSlot0 (params.atLeast (inputs.greedyLps k))
    params.beamWidth
  have others := applyAdaptiveAll_le params.adaptiveAll (params.atLeast (inputs.greedyLps k))
    (inputs.rankSlotTopkTable (inputs.rankPreds k))
  rw [Cuda.slotTopk]
  split <;> omega

omit [AddCommGroup S] in
theorem nAltSlot_eq (k : Nat) : Cuda.nAltSlot params inputs k = Cuda.slotTopk params inputs k - 1 := by
  rw [Cuda.nAltSlot]
  split <;> omega

omit [AddCommGroup S] in
theorem forAlts_eq {β : Type} (body : Nat → Nat → β) :
    Cuda.forAlts params inputs body =
      spread (Cuda.nAltSlot params inputs) params.K (fun k index => body k (index + 1)) := by
  rw [Cuda.forAlts, spread]
  congr 1
  funext k
  rw [nAltSlot_eq, List.range'_eq_map_range, List.map_map]
  congr 1
  funext index
  rw [Function.comp_apply, Nat.add_comm]

omit [AddCommGroup S] in
/-- A lane of the tile is in use when it is one of its slot's alternatives. -/
theorem altValid_eq (fits : Block1Fits params inputs) {lane : Nat}
    (inside : lane < params.K * Triton.jPad) :
    Triton.altValid params inputs lane =
      decide (lane % 16 < Cuda.nAltSlot params inputs (lane / 16)) := by
  have slot : lane / 16 < params.K := Nat.div_lt_of_lt_mul (by rwa [Nat.mul_comm])
  have column : Triton.altJIdx lane = lane % 16 := by
    rw [Triton.altJIdx, Triton.altK, Triton.jPad]
    omega
  have few := fits.slotTopk_le slot
  have matched : Triton.sum params.K (fun k =>
      if Triton.altK lane = k then Triton.slotTopks params inputs k else 0) =
      Cuda.slotTopk params inputs (lane / 16) :=
    (sum_match (Triton.slotTopks params inputs) slot).trans (slotTopks_eq _)
  simp only [Triton.altValid, matched, Triton.altJ, column, nAltSlot_eq]
  exact decide_eq_decide.mpr ⟨fun valid => by omega, fun valid => by omega⟩

omit [AddCommGroup S] in
theorem Block1Fits.nAltSlot_le (fits : Block1Fits params inputs) {k : Nat} (inside : k < params.K) :
    Cuda.nAltSlot params inputs k ≤ 16 := by
  have few := fits.slotTopk_le inside
  have tile := fits.tile
  rw [nAltSlot_eq]
  omega

omit [AddCommGroup S] in
theorem altLanes_eq (fits : Block1Fits params inputs) :
    Triton.altLanes params inputs =
      spread (Cuda.nAltSlot params inputs) params.K (fun k index => k * 16 + index) :=
  tileLanes_eq (fun _ inside => fits.nAltSlot_le inside) (fun _ inside => altValid_eq fits inside)

omit [AddCommGroup S] in
theorem altRank_eq (fits : Block1Fits params inputs) {k index : Nat} (slot : k < params.K)
    (inside : index < Cuda.nAltSlot params inputs k) :
    Triton.altRank params inputs (k * 16 + index) = Cuda.cumAltExcl params inputs k + index :=
  tileRank_eq (fun _ inside => fits.nAltSlot_le inside) (fun _ inside => altValid_eq fits inside) slot
    inside

omit [AddCommGroup S] in
theorem giveUp_eq : Triton.giveUp params inputs =
    Cuda.giveUp params.K params.giveUpClass inputs.rankPreds := by
  have first := first_nonzero inputs.rankPreds params.K
  simp only [Triton.giveUp, Cuda.giveUp]
  cases found : ((List.range params.K).map inputs.rankPreds).find? (fun rank => rank != 0) with
  | some rank =>
    rw [found] at first
    rw [first.2]
    simp [first.1]
  | none =>
    rw [found] at first
    simp [first.1]

omit [AddCommGroup S] in
theorem cumAltExcl_eq (k : Nat) : Triton.cumAltExcl params inputs k = Cuda.cumAltExcl params inputs k := by
  have sizes : Triton.nAltSlot params inputs = Cuda.nAltSlot params inputs := by
    funext k
    rw [nAltSlot_eq, Triton.nAltSlot, slotTopks_eq]
  rw [Triton.cumAltExcl, cumsum_sub, sizes]
  rfl

omit [AddCommGroup S] in
theorem totalAlts1_eq : Triton.totalAlts1 params inputs = Cuda.cumAltExcl params inputs params.K := by
  rw [Triton.totalAlts1, sum_eq_before, ← cumAltExcl_eq, Triton.cumAltExcl, cumsum_sub]

omit [AddCommGroup S] in
theorem activeMask_eq :
    Triton.activeMask params inputs = fun k => if 1 < Cuda.slotTopk params inputs k then 1 else 0 := by
  funext k
  rw [Triton.activeMask, slotTopks_eq]

omit [AddCommGroup S] in
theorem activeRank_eq (k : Nat) : Triton.activeRank params inputs k = Cuda.activeRank params inputs k := by
  rw [Triton.activeRank, cumsum_sub, activeMask_eq]
  rfl

omit [AddCommGroup S] in
/-- All slots with alternatives. -/
theorem nActive_eq : Triton.nActive params inputs = Cuda.activeRank params inputs params.K := by
  rw [Triton.nActive, sum_eq_before, activeMask_eq]
  rfl

omit [AddCommGroup S] in
/-- Both kernels find out alike whether the end of the chain is pending on its own. -/
theorem hitchAdd_eq (slots : 0 < params.K) :
    Triton.hitchAdd params inputs = Cuda.hitchAdd params inputs := by
  have last := sum_match (Triton.activeMask params inputs) (Nat.sub_lt slots Nat.one_pos)
  have inactive : Triton.activeMask params inputs (params.K - 1) = 0 ↔
      ¬ 1 < Cuda.slotTopk params inputs (params.K - 1) := by
    rw [Triton.activeMask, slotTopks_eq]
    split <;> simp_all
  simp only [Triton.hitchAdd, Cuda.hitchAdd, giveUp_eq]
  simp only [eq_comm (b := params.K - 1), last, inactive]

theorem cumGreedyLps_eq (k : Nat) : Triton.cumGreedyLps inputs k = Cuda.cumGlp inputs k :=
  cumsum_eq_runningSum inputs.greedyLps k

theorem chainLane_eq (k : Nat) : Triton.chainLane inputs k = Cuda.chainRow inputs k := by
  rw [Triton.chainLane, cumGreedyLps_eq]
  rfl

theorem cumGreedyLpsExcl_eq (k : Nat) : Triton.cumGreedyLpsExcl inputs k =
    if k = 0 then 0 else Cuda.cumGlp inputs (k - 1) := by
  rw [Triton.cumGreedyLpsExcl, Triton.cumGreedyLps, cumsum_sub_self]
  cases k with
  | zero => rfl
  | succ k => rfl

section lanes

variable {k index : Nat}

theorem lane_parts (inside : index < 16) :
    Triton.altK (k * 16 + index) = k ∧ Triton.altJ (k * 16 + index) = index + 1 := by
  simp only [Triton.altK, Triton.altJ, Triton.altJIdx, Triton.jPad]
  omega

theorem altLpNode_eq (slot : k < params.K) (inside : index < 16) :
    Triton.altLpNode params inputs (k * 16 + index) = Cuda.altLp params inputs k (index + 1) := by
  obtain ⟨row, column⟩ := lane_parts (k := k) inside
  rw [Triton.altLpNode, row, column, sum_match _ slot, cumGreedyLpsExcl_eq]
  rfl

theorem altLane_eq (slot : k < params.K) (inside : index < 16) :
    Triton.altLane params inputs (k * 16 + index) = Cuda.altRow params inputs k (index + 1) := by
  obtain ⟨row, column⟩ := lane_parts (k := k) inside
  rw [Triton.altLane, altLpNode_eq slot inside, row, column]
  rfl

end lanes

/-- The first kernels store the same rows at the same places. -/
theorem block1MegaKernel_eq (fits : Block1Fits params inputs) :
    Triton.block1MegaKernel params inputs = Cuda.buildTreeBlock1Kernel params inputs := by
  have narrow : ∀ k < params.K, ∀ index < Cuda.nAltSlot params inputs k, index < 16 := by
    intro k slot index inside
    exact Nat.lt_of_lt_of_le inside (fits.nAltSlot_le slot)
  have places : ∀ k < params.K, ∀ index < Cuda.nAltSlot params inputs k,
      params.K + Triton.altRank params inputs (k * 16 + index) =
        Cuda.altPos params inputs k (index + 1) := by
    intro k slot index inside
    rw [altRank_eq fits slot inside, Cuda.altPos, Nat.add_sub_cancel, Nat.add_assoc]
  have tree : (Triton.block1MegaKernel params inputs).tree = Cuda.block1Tree params inputs := by
    rw [Triton.block1MegaKernel, Cuda.block1Tree, altLanes_eq fits, map_spread, forAlts_eq]
    simp only [chainLane_eq]
    congr 1
    refine spread_congr (fun k slot => rfl) (fun k slot index inside => ?_)
    rw [places k slot index inside, altLane_eq slot (narrow k slot index inside)]
  have pending : (Triton.block1MegaKernel params inputs).pend =
      (Cuda.buildTreeBlock1Kernel params inputs).pend := by
    simp only [Triton.block1MegaKernel, Cuda.buildTreeBlock1Kernel, altLanes_eq fits, map_spread,
      forAlts_eq, hitchAdd_eq fits.slots, totalAlts1_eq, nActive_eq]
    congr 1
    · congr 1
      · refine spread_congr (fun k slot => rfl) (fun k slot index inside => ?_)
        have within := narrow k slot index inside
        obtain ⟨row, column⟩ := lane_parts (k := k) within
        rw [altRank_eq fits slot inside, Triton.altPendLane, places k slot index inside,
          altLpNode_eq slot within, row, column, Nat.add_sub_cancel, Nat.add_assoc]
        rfl
      · have slots : (List.range params.K).filter (fun k =>
            decide (Triton.activeMask params inputs k = 1)) = Cuda.activeSlots params inputs := by
          refine List.filter_congr (fun k _ => decide_eq_decide.mpr ?_)
          rw [Triton.activeMask, slotTopks_eq]
          split <;> simp_all
        rw [slots]
        refine List.map_congr_left (fun k _ => ?_)
        rw [activeRank_eq, Triton.activeLane, cumGreedyLps_eq]
        rfl
    · have tokens := sum_match inputs.greedyTarget (Nat.sub_lt fits.slots Nat.one_pos)
      have lps := (sum_match (Triton.cumGreedyLps inputs) (Nat.sub_lt fits.slots Nat.one_pos)).trans
        (cumGreedyLps_eq _)
      have row : Triton.hitchRow params inputs =
          { Cuda.chainPend inputs (params.K - 1) with tttValid := params.K } := by
        simp only [Triton.hitchRow, eq_comm (b := params.K - 1), tokens, lps]
        rfl
      rw [row]
  have sizes : (Triton.block1MegaKernel params inputs).sizes =
      (Cuda.buildTreeBlock1Kernel params inputs).sizes := by
    simp only [Triton.block1MegaKernel, Cuda.buildTreeBlock1Kernel, hitchAdd_eq fits.slots,
      totalAlts1_eq, nActive_eq]
  calc Triton.block1MegaKernel params inputs
      = ⟨(Triton.block1MegaKernel params inputs).tree, (Triton.block1MegaKernel params inputs).pend,
          (Triton.block1MegaKernel params inputs).sizes⟩ := rfl
    _ = ⟨Cuda.block1Tree params inputs, (Cuda.buildTreeBlock1Kernel params inputs).pend,
          (Cuda.buildTreeBlock1Kernel params inputs).sizes⟩ := by rw [tree, pending, sizes]
    _ = Cuda.buildTreeBlock1Kernel params inputs := rfl

theorem block1Tree_places : (Cuda.block1Tree params inputs).map Prod.fst =
    List.range (params.K + Cuda.cumAltExcl params inputs params.K) := by
  rw [Cuda.block1Tree, List.map_append, List.map_map, forAlts_eq, map_spread, List.range_add]
  congr 1
  · exact List.map_id _
  · rw [Cuda.cumAltExcl, ← spread_places, map_spread]
    refine spread_congr (fun k slot => rfl) (fun k slot index inside => ?_)
    rw [Cuda.altPos, Nat.add_sub_cancel, Nat.add_assoc]
    rfl

/-- The pending slots, the alternatives and the end of the chain lie one after the other. -/
theorem buildTreeBlock1Kernel_places :
    ((Cuda.buildTreeBlock1Kernel params inputs).pend.map Prod.fst).Perm
      (List.range (Cuda.activeRank params inputs params.K + Cuda.cumAltExcl params inputs params.K +
        Cuda.hitchAdd params inputs)) := by
  have slots : (Cuda.activeSlots params inputs).map (Cuda.activeRank params inputs) =
      List.range (Cuda.activeRank params inputs params.K) := by
    rw [Cuda.activeSlots, filter_spread, map_spread, Cuda.activeRank, ← spread_places]
    have sizes : ∀ k < params.K, (decide (1 < Cuda.slotTopk params inputs k)).toNat =
        if 1 < Cuda.slotTopk params inputs k then 1 else 0 := by
      intro k slot
      split <;> simp_all
    refine spread_congr sizes (fun k slot index inside => ?_)
    have only : index = 0 := by
      have few := Bool.toNat_lt (decide (1 < Cuda.slotTopk params inputs k))
      omega
    rw [only]
    rfl
  have alternatives : spread (Cuda.nAltSlot params inputs) params.K (fun k index =>
        Cuda.activeRank params inputs params.K + Cuda.cumAltExcl params inputs k + (index + 1 - 1)) =
      (List.range (Cuda.cumAltExcl params inputs params.K)).map
        (fun place => Cuda.activeRank params inputs params.K + place) := by
    rw [Cuda.cumAltExcl, ← spread_places, map_spread]
    refine spread_congr (fun k slot => rfl) (fun k slot index inside => ?_)
    rw [Nat.add_sub_cancel, Nat.add_assoc]
    rfl
  have hitched : (if Cuda.hitchAdd params inputs = 1 then
      [(Cuda.activeRank params inputs params.K + Cuda.cumAltExcl params inputs params.K,
        { Cuda.chainPend inputs (params.K - 1) with tttValid := params.K })] else []).map Prod.fst =
      (List.range (Cuda.hitchAdd params inputs)).map (fun place =>
        Cuda.activeRank params inputs params.K + Cuda.cumAltExcl params inputs params.K + place) := by
    rw [Cuda.hitchAdd]
    split <;> rfl
  simp only [Cuda.buildTreeBlock1Kernel, forAlts_eq, List.map_append, map_spread, List.map_map,
    Function.comp_def, hitched]
  rw [alternatives, List.range_add, List.range_add]
  refine List.Perm.append_right _ ?_
  rw [← slots]
  exact List.perm_append_comm

end block1

section bfs

variable {params : BuildParams S} {inputs : BfsInputs S} {N : Nat}

/-- No slot of a leaf has more children than the tables have columns, and the columns fit the
tile. -/
structure BfsFits (params : BuildParams S) (inputs : BfsInputs S) (N : Nat) : Prop where
  columns : 0 < params.maxTopk
  tile : params.maxTopk ≤ 17
  table : ∀ leaf < N, ∀ k < params.K,
    inputs.rankSlotTopkTable (inputs.allRankPreds (leaf * params.K + k)) ≤ params.maxTopk

omit [AddCommGroup S] in
/-- A slot of a leaf has no more alternatives than the tables have columns for them. -/
theorem BfsFits.leafNAltSlot_le (fits : BfsFits params inputs N) {leaf k : Nat} (listed : leaf < N)
    (slot : k < params.K) : Triton.leafNAltSlot params inputs leaf k ≤ params.maxTopk - 1 := by
  have columns := fits.columns
  have table := fits.table leaf listed k slot
  have few := applyAdaptiveAll_le params.adaptiveAll
    (params.atLeast (inputs.allGreedyLps (leaf * params.K + k)))
    (inputs.rankSlotTopkTable (inputs.allRankPreds (leaf * params.K + k)))
  rw [Triton.leafNAltSlot, Triton.leafSlotTopks, Triton.slotKRule_eq]
  split <;> omega

omit [AddCommGroup S] in
theorem leafAlts_eq (leaf : Nat) : Cuda.leafAlts params inputs leaf =
    before (Triton.leafNAltSlot params inputs leaf) params.K := rfl

omit [AddCommGroup S] in
/-- All leaves together have no more nodes than the tables have columns. -/
theorem BfsFits.total_le (fits : BfsFits params inputs N) :
    N * params.K + before (Cuda.leafAlts params inputs) N ≤ N * params.K * params.maxTopk := by
  obtain ⟨columns, same⟩ := Nat.exists_eq_succ_of_ne_zero fits.columns.ne'
  have leaves : ∀ leaf < N, Cuda.leafAlts params inputs leaf ≤ params.K * columns := by
    intro leaf listed
    rw [leafAlts_eq]
    refine before_le _ _ _ (fun k slot => ?_)
    have few := fits.leafNAltSlot_le listed slot
    omega
  have total := before_le _ _ _ leaves
  rw [← Nat.mul_assoc] at total
  rw [same, Nat.mul_succ]
  omega

omit [AddCommGroup S] in
theorem nAltPerLeaf_eq (leaf : Nat) : Triton.nAltPerLeaf params inputs N leaf =
    if leaf < N then Cuda.leafAlts params inputs leaf else 0 := by
  rw [Triton.nAltPerLeaf, sum_eq_before]
  by_cases listed : leaf < N
  · rw [if_pos listed, leafAlts_eq]
    refine before_congr (fun k _ => ?_)
    simp [listed, Triton.leafNAltSlot]
  · have nothing := before_const 0 params.K
    rw [Nat.mul_zero] at nothing
    simp only [listed, and_false, if_false, nothing]

omit [AddCommGroup S] in
theorem bfsSizingKernel_total {blockN : Nat} (padded : N ≤ blockN) :
    (Triton.bfsSizingKernel params inputs N blockN).2 = before (Cuda.leafAlts params inputs) N := by
  obtain ⟨padding, rfl⟩ := Nat.exists_eq_add_of_le padded
  have leaves : before (Triton.nAltPerLeaf params inputs N) N =
      before (Cuda.leafAlts params inputs) N := by
    refine before_congr (fun leaf listed => ?_)
    rw [nAltPerLeaf_eq, if_pos listed]
  have others : before (fun lane => Triton.nAltPerLeaf params inputs N (N + lane)) padding =
      padding * 0 := by
    rw [← before_const]
    refine before_congr (fun lane _ => ?_)
    rw [nAltPerLeaf_eq, if_neg (by omega)]
  show Triton.sum (N + padding) (Triton.nAltPerLeaf params inputs N) = _
  rw [sum_eq_before, before_add, leaves, others, Nat.mul_zero, Nat.add_zero]

omit [AddCommGroup S] in
theorem bfsSizingKernel_offset {blockN leaf : Nat} (padded : N ≤ blockN) (listed : leaf < N)
    (scratch : Nat → Nat) :
    store scratch (Triton.bfsSizingKernel params inputs N blockN).1 leaf =
      before (Cuda.leafAlts params inputs) leaf := by
  have offset : Triton.cumsum (Triton.nAltPerLeaf params inputs N) leaf -
      Triton.nAltPerLeaf params inputs N leaf = before (Cuda.leafAlts params inputs) leaf := by
    rw [cumsum_sub]
    refine before_congr (fun earlier low => ?_)
    rw [nAltPerLeaf_eq, if_pos (low.trans listed)]
  rw [← offset]
  refine store_value scratch _ leaf _ ?_ ?_
  · refine List.mem_map.mpr ⟨leaf, List.mem_filter.mpr ⟨?_, decide_eq_true listed⟩, rfl⟩
    exact List.mem_range.mpr (Nat.lt_of_lt_of_le listed padded)
  · intro entry member here
    obtain ⟨other, -, rfl⟩ := List.mem_map.mp member
    obtain rfl : other = leaf := here
    rfl

variable {treeStart pendDepth : Nat}

theorem leafCumGreedyLpsExcl_eq (leaf k : Nat) : Triton.leafCumGreedyLpsExcl params inputs leaf k =
    if k = 0 then 0 else Cuda.leafCumGlp params inputs leaf (k - 1) := by
  rw [Triton.leafCumGreedyLpsExcl, Triton.leafCumGreedyLps,
    cumsum_sub_self (fun slot => inputs.allGreedyLps (leaf * params.K + slot))]
  cases k with
  | zero => rfl
  | succ k => rfl

theorem leafChainLane_eq (leaf k : Nat) : Triton.leafChainLane params inputs treeStart pendDepth leaf k =
    (Cuda.chainBase params treeStart leaf + k,
      Cuda.leafChainRow params inputs treeStart pendDepth leaf k) := by
  rw [Triton.leafChainLane, Triton.leafCumGreedyLps, cumsum_eq_runningSum]
  rfl

theorem leafAltLane_eq (leafAltBase leaf k index : Nat) :
    Triton.leafAltLane params inputs N treeStart pendDepth leafAltBase leaf k index =
      (treeStart + N * params.K + leafAltBase +
          (before (Triton.leafNAltSlot params inputs leaf) k + index),
        Cuda.leafAltRow params inputs treeStart pendDepth leaf k (index + 1)) := by
  have column : leaf * params.K * params.maxTopk + k * params.maxTopk + (index + 1) =
      (leaf * params.K + k) * params.maxTopk + (index + 1) := by
    rw [Nat.add_mul]
  have parent : (if k = 0 then (inputs.pendNodeIndices leaf : Int)
        else ((treeStart + leaf * params.K : Nat) : Int) + k - 1) =
      if k = 0 then (inputs.pendNodeIndices leaf : Int)
        else ((Cuda.chainBase params treeStart leaf + (k - 1) : Nat) : Int) := by
    split
    · rfl
    · rw [Cuda.chainBase]
      omega
  simp only [Triton.leafAltLane, cumsum_sub, leafCumGreedyLpsExcl_eq, column, parent]
  rfl

theorem leafAltRows_eq (leaf : Nat) : Cuda.leafAltRows params inputs treeStart pendDepth leaf =
    spread (Triton.leafNAltSlot params inputs leaf) params.K (fun k index =>
      Cuda.leafAltRow params inputs treeStart pendDepth leaf k (index + 1)) := by
  rw [Cuda.leafAltRows, spread]
  congr 1
  funext k
  rw [Triton.leafNAltSlot]
  by_cases active : 1 < Triton.leafSlotTopks params inputs leaf k
  · have stop : ¬ Cuda.bfsTopk params inputs leaf k ≤ 1 := Nat.not_le.mpr active
    rw [if_pos active, if_neg stop, List.range'_eq_map_range, List.map_map]
    refine List.map_congr_left (fun index _ => ?_)
    rw [Function.comp_apply, Nat.add_comm]
  · have stop : Cuda.bfsTopk params inputs leaf k ≤ 1 := Nat.not_lt.mp active
    rw [if_neg active, if_pos stop]
    rfl

/-- What a leaf's block stores, without the guard. -/
def leafStores (params : BuildParams S) (inputs : BfsInputs S) (N treeStart pendDepth leaf : Nat) :
    List (Nat × TreeRow S) :=
  (List.range params.K).map (fun k => (Cuda.chainBase params treeStart leaf + k,
    Cuda.leafChainRow params inputs treeStart pendDepth leaf k)) ++
  spread (Triton.leafNAltSlot params inputs leaf) params.K (fun k index =>
    (treeStart + N * params.K + before (Cuda.leafAlts params inputs) leaf +
      (before (Triton.leafNAltSlot params inputs leaf) k + index),
      Cuda.leafAltRow params inputs treeStart pendDepth leaf k (index + 1)))

theorem bfsScatterKernel_eq (fits : BfsFits params inputs N) {leaf : Nat} (listed : leaf < N)
    (offsets : Nat → Nat) (offset : offsets leaf = before (Cuda.leafAlts params inputs) leaf) :
    Triton.bfsScatterKernel params inputs N treeStart pendDepth offsets leaf =
      leafStores params inputs N treeStart pendDepth leaf := by
  rw [Triton.bfsScatterKernel, leafStores, offset]
  congr 1
  · exact List.map_congr_left (fun k _ => leafChainLane_eq leaf k)
  · rw [spread]
    refine List.flatMap_congr (fun k member => ?_)
    have few := fits.leafNAltSlot_le listed (List.mem_range.mp member)
    have tile := fits.tile
    have lanes : (List.range Triton.jPad).filter (Triton.leafAltValid params inputs leaf k) =
        List.range (Triton.leafNAltSlot params inputs leaf k) := by
      have narrow : Triton.leafNAltSlot params inputs leaf k ≤ Triton.jPad := by
        rw [Triton.jPad]
        omega
      rw [← filter_row narrow]
      refine List.filter_congr (fun index _ => decide_eq_decide.mpr ?_)
      rw [Triton.leafNAltSlot] at few ⊢
      by_cases active : 1 < Triton.leafSlotTopks params inputs leaf k
      · rw [if_pos active] at few ⊢
        constructor
        · intro valid
          omega
        · intro valid
          omega
      · simp [active]
    rw [lanes]
    exact List.map_congr_left (fun index _ => leafAltLane_eq _ leaf k index)

/-- A leaf's stores lie between the start of the block and its end. -/
theorem leafStores_inside {leaf : Nat} (listed : leaf < N) {entry : Nat × TreeRow S}
    (member : entry ∈ leafStores params inputs N treeStart pendDepth leaf) :
    entry.1 < treeStart + (N * params.K + before (Cuda.leafAlts params inputs) N) := by
  rcases List.mem_append.mp member with chained | alternative
  · obtain ⟨k, slot, rfl⟩ := List.mem_map.mp chained
    have rows := Nat.mul_le_mul_right params.K (Nat.succ_le_of_lt listed)
    have inside := List.mem_range.mp slot
    rw [Nat.succ_mul] at rows
    simp only [Cuda.chainBase]
    omega
  · obtain ⟨k, index, slot, inside, rfl⟩ := mem_spread.mp alternative
    have slots := before_mono (Triton.leafNAltSlot params inputs leaf) (Nat.succ_le_of_lt slot)
    have leaves := before_mono (Cuda.leafAlts params inputs) (Nat.succ_le_of_lt listed)
    rw [before_succ] at slots leaves
    rw [leafAlts_eq leaf] at leaves
    simp only
    omega

theorem bfsBlock_eq (fits : BfsFits params inputs N) {leaf treeCapacity : Nat} (listed : leaf < N)
    (room : treeStart + N * params.K * params.maxTopk ≤ treeCapacity) :
    Cuda.bfsBlock params inputs N treeStart pendDepth treeCapacity leaf =
      leafStores params inputs N treeStart pendDepth leaf := by
  have alternatives : (Cuda.leafAltRows params inputs treeStart pendDepth leaf).zipIdx.map (fun alt =>
        (treeStart + N * params.K + before (Cuda.leafAlts params inputs) leaf + alt.2, alt.1)) =
      spread (Triton.leafNAltSlot params inputs leaf) params.K (fun k index =>
        (treeStart + N * params.K + before (Cuda.leafAlts params inputs) leaf +
          (before (Triton.leafNAltSlot params inputs leaf) k + index),
          Cuda.leafAltRow params inputs treeStart pendDepth leaf k (index + 1))) := by
    rw [leafAltRows_eq, zipIdx_spread, map_spread]
  simp only [Cuda.bfsBlock, alternatives]
  refine List.filter_eq_self.mpr (fun entry member => decide_eq_true ?_)
  have total := fits.total_le
  have inside := leafStores_inside listed member
  omega

theorem tritonBuildBfs_eq (fits : BfsFits params inputs N) {treeCapacity blockN : Nat}
    (leaves : 0 < N) (room : treeStart + N * params.K * params.maxTopk ≤ treeCapacity)
    (padded : N ≤ blockN) (scratch : Nat → Nat) :
    Triton.tritonBuildBfs params inputs N treeStart pendDepth blockN scratch =
      Cuda.buildTreeBfsKernel params inputs N treeStart pendDepth treeCapacity := by
  have tree : (List.range N).flatMap (Triton.bfsScatterKernel params inputs N treeStart pendDepth
        (store scratch (Triton.bfsSizingKernel params inputs N blockN).1)) =
      (List.range N).flatMap (Cuda.bfsBlock params inputs N treeStart pendDepth treeCapacity) := by
    refine List.flatMap_congr (fun leaf member => ?_)
    have listed := List.mem_range.mp member
    rw [bfsScatterKernel_eq fits listed _ (bfsSizingKernel_offset padded listed scratch),
      bfsBlock_eq fits listed room]
  have total : (List.range N).flatMap (fun leaf =>
      if leaf = 0 then [before (Cuda.leafAlts params inputs) N] else []) =
      [before (Cuda.leafAlts params inputs) N] := by
    obtain ⟨others, same⟩ := Nat.exists_eq_succ_of_ne_zero leaves.ne'
    have first : List.range N = 0 :: (List.range others).map Nat.succ := by
      rw [same, List.range_succ_eq_map]
    rw [first, List.flatMap_cons, if_pos rfl, List.flatMap_map]
    have nothing : (List.range others).flatMap (fun leaf =>
        if leaf.succ = 0 then [before (Cuda.leafAlts params inputs) N] else []) = [] := by
      simp
    rw [nothing, List.append_nil]
  rw [Triton.tritonBuildBfs, Cuda.buildTreeBfsKernel, tree, total, bfsSizingKernel_total padded]

/-- The chains of all leaves and then their alternatives lie one after the other. -/
theorem buildTreeBfsKernel_places (fits : BfsFits params inputs N) {treeCapacity : Nat}
    (room : treeStart + N * params.K * params.maxTopk ≤ treeCapacity) :
    ((Cuda.buildTreeBfsKernel params inputs N treeStart pendDepth treeCapacity).tree.map
      Prod.fst).Perm ((List.range (N * params.K + before (Cuda.leafAlts params inputs) N)).map
        (fun place => treeStart + place)) := by
  have blocks : (List.range N).flatMap
        (Cuda.bfsBlock params inputs N treeStart pendDepth treeCapacity) =
      (List.range N).flatMap (leafStores params inputs N treeStart pendDepth) :=
    List.flatMap_congr (fun leaf member => bfsBlock_eq fits (List.mem_range.mp member) room)
  have chains : (List.range N).flatMap (fun leaf => (List.range params.K).map (fun k =>
        Cuda.chainBase params treeStart leaf + k)) =
      (List.range (N * params.K)).map (fun place => treeStart + place) := by
    rw [← before_const, ← spread_places, map_spread, spread]
    refine List.flatMap_congr (fun leaf _ => List.map_congr_left (fun k _ => ?_))
    rw [Cuda.chainBase, before_const, Nat.add_assoc]
  have alternatives : (List.range N).flatMap (fun leaf =>
        spread (Triton.leafNAltSlot params inputs leaf) params.K (fun k index =>
          treeStart + N * params.K + before (Cuda.leafAlts params inputs) leaf +
            (before (Triton.leafNAltSlot params inputs leaf) k + index))) =
      ((List.range (before (Cuda.leafAlts params inputs) N)).map (fun place =>
        N * params.K + place)).map (fun place => treeStart + place) := by
    rw [List.map_map, ← spread_places, map_spread, spread]
    refine List.flatMap_congr (fun leaf _ => ?_)
    rw [leafAlts_eq leaf, ← spread_places, map_spread]
    refine spread_congr (fun k _ => rfl) (fun k _ index _ => ?_)
    rw [Function.comp_apply]
    omega
  have parts : ((Cuda.buildTreeBfsKernel params inputs N treeStart pendDepth treeCapacity).tree.map
      Prod.fst) = (List.range N).flatMap (fun leaf =>
        (List.range params.K).map (fun k => Cuda.chainBase params treeStart leaf + k) ++
        spread (Triton.leafNAltSlot params inputs leaf) params.K (fun k index =>
          treeStart + N * params.K + before (Cuda.leafAlts params inputs) leaf +
            (before (Triton.leafNAltSlot params inputs leaf) k + index))) := by
    rw [Cuda.buildTreeBfsKernel, blocks, List.map_flatMap]
    refine List.flatMap_congr (fun leaf _ => ?_)
    rw [leafStores, List.map_append, List.map_map, map_spread]
    rfl
  rw [parts, List.range_add, List.map_append, ← chains, ← alternatives]
  exact (List.flatMap_append_perm _ _ _).symm

/-- The scratch buffer that the callers choose has room for all leaves. -/
theorem bfsBlockN_le (N current : Nat) : N ≤ Triton.bfsBlockN N current := by
  rw [Triton.bfsBlockN]
  split
  · have power := Nat.lt_log2_self (n := N - 1)
    omega
  · omega

end bfs

section agreement

/-- Two launches that store the same values at the same places, from one place to before another:
no two stores of either meet, each place is written, none outside is, and whatever the order of the
stores is they lead to the same memory. -/
structure SameStores {β : Type} (start stop : Nat) (first second : List (Nat × β)) : Prop where
  memory : ∀ {memory result result' : Nat → β}, Outcome memory first result →
    Outcome memory second result' → result = result'
  apart : (first.map Prod.fst).Nodup ∧ (second.map Prod.fst).Nodup
  written : ∀ place, start ≤ place → place < stop →
    place ∈ first.map Prod.fst ∧ place ∈ second.map Prod.fst
  inside : ∀ entry ∈ first ++ second, start ≤ entry.1 ∧ entry.1 < stop

/-- Equal stores at consecutive places. -/
theorem SameStores.of_places {β : Type} {start size : Nat} {first second : List (Nat × β)}
    (same : second = first)
    (places : (first.map Prod.fst).Perm ((List.range size).map (fun place => start + place))) :
    SameStores start (start + size) first second := by
  subst same
  have apart : (second.map Prod.fst).Nodup :=
    places.nodup_iff.mpr (List.nodup_range.map (fun a b equal => Nat.add_left_cancel equal))
  have listed : ∀ place, place ∈ second.map Prod.fst ↔ start ≤ place ∧ place < start + size := by
    intro place
    rw [places.mem_iff, List.mem_map]
    constructor
    · rintro ⟨offset, inside, rfl⟩
      have low := List.mem_range.mp inside
      omega
    · rintro ⟨low, high⟩
      exact ⟨place - start, List.mem_range.mpr (by omega), by omega⟩
  constructor
  · intro memory result result' outcome outcome'
    exact outcome.determined apart (List.Perm.refl _) outcome'
  · exact ⟨apart, apart⟩
  · intro place low high
    exact ⟨(listed place).mpr ⟨low, high⟩, (listed place).mpr ⟨low, high⟩⟩
  · intro entry member
    have either : entry ∈ second := by simpa using member
    exact (listed entry.1).mp (List.mem_map_of_mem either)

/-- What it means for the builders to agree: the first kernels store the same tree rows below the
node count and the same pending rows below the pending count, with the same sizes; the next kernels
store the same tree rows from the start of their block to their node count, with the same total,
within the worst case that the buffers are checked for. -/
def BuildersAgree (params : BuildParams S) (inputs : Block1Inputs S) (next : BfsInputs S)
    (N treeStart pendDepth treeCapacity current : Nat) (scratch : Nat → Nat) : Prop :=
  let cuda := Cuda.buildTreeBlock1Kernel params inputs
  let triton := Triton.block1MegaKernel params inputs
  let cudaNext := Cuda.buildTreeBfsKernel params next N treeStart pendDepth treeCapacity
  let tritonNext := Triton.tritonBuildBfs params next N treeStart pendDepth
    (Triton.bfsBlockN N current) scratch
  ∃ nodes active alternatives pending total : Nat,
    cuda.sizes = [nodes, active, alternatives, pending] ∧ triton.sizes = cuda.sizes ∧
    SameStores 0 nodes cuda.tree triton.tree ∧ SameStores 0 pending cuda.pend triton.pend ∧
    cudaNext.totalAlts = [total] ∧ tritonNext.totalAlts = [total] ∧
    SameStores treeStart (treeStart + (N * params.K + total)) cudaNext.tree tritonNext.tree ∧
    treeStart + (N * params.K + total) ≤ treeStart + N * params.K * params.maxTopk

/-- **The CUDA and the Triton builder agree** on all inputs whose slots fit the tables, for all
modes, numbers of leaves and initial contents of the scratch buffer. -/
theorem cuda_triton_agree (params : BuildParams S) (inputs : Block1Inputs S) (next : BfsInputs S)
    (N treeStart pendDepth treeCapacity current : Nat) (scratch : Nat → Nat)
    (fits : Block1Fits params inputs) (nextFits : BfsFits params next N) (leaves : 0 < N)
    (room : treeStart + N * params.K * params.maxTopk ≤ treeCapacity) :
    BuildersAgree params inputs next N treeStart pendDepth treeCapacity current scratch := by
  unfold BuildersAgree
  intro cuda triton cudaNext tritonNext
  have first : triton = cuda := block1MegaKernel_eq fits
  have second : tritonNext = cudaNext :=
    tritonBuildBfs_eq nextFits leaves room (bfsBlockN_le N current) scratch
  have total : tritonNext.totalAlts = [before (Cuda.leafAlts params next) N] := by
    show [_] = _
    rw [bfsSizingKernel_total (bfsBlockN_le N current)]
  refine ⟨_, _, _, _, before (Cuda.leafAlts params next) N, rfl, by rw [first], ?_, ?_,
    by rw [← second, total], total, ?_, Nat.add_le_add_left nextFits.total_le treeStart⟩
  · rw [first, ← Nat.zero_add (params.K + _)]
    refine SameStores.of_places rfl ?_
    simp only [Nat.zero_add, List.map_id']
    exact List.Perm.of_eq block1Tree_places
  · rw [first, ← Nat.zero_add (Cuda.activeRank params inputs params.K + _ + _)]
    refine SameStores.of_places rfl ?_
    simp only [Nat.zero_add, List.map_id']
    exact buildTreeBlock1Kernel_places
  · rw [second]
    exact SameStores.of_places rfl (buildTreeBfsKernel_places nextFits room)

end agreement

/-- Two slots, whose log-probabilities stand for percentages below a hundred. -/
def pairInputs : Block1Inputs Int where
  rankPreds := fun slot => slot + 1
  greedyTarget := fun slot => slot
  greedyLps := fun slot => if slot = 0 then -3 else -20
  allTopTarget := fun column => column
  allTopLps := fun _ => -30
  rankSlotTopkTable := fun rank => rank + 1

/-- Three leaves that go on from there, the second surer than the others. -/
def pairNext : BfsInputs Int where
  allRankPreds := fun _ => 2
  allGreedyTarget := fun slot => slot
  allGreedyLps := fun slot => if slot = 2 ∨ slot = 3 then -5 else -45
  topTargetAll := fun column => column
  topLpsAll := fun _ => -60
  pendCumLps := fun leaf => -(leaf : Int)
  pendNodeIndices := fun leaf => leaf
  rankSlotTopkTable := fun rank => rank + 1

/-- The arguments for two slots and tables of three columns. -/
def pairParams : BuildParams Int where
  beamWidth := 3
  K := 2
  maxTopk := 3
  giveUpClass := 3
  adaptiveSlot0 := 2
  adaptiveAll := 2
  atLeast := fun logProb percent => decide ((percent : Int) ≤ 100 + logProb)

/-- The builders agree on the two slots, both cut by their thresholds, and on three leaves, of which
one stops branching. -/
theorem cuda_triton_agree_pair :
    BuildersAgree pairParams pairInputs pairNext 3 6 1 24 32 (fun _ => 0) :=
  cuda_triton_agree pairParams pairInputs pairNext 3 6 1 24 32 (fun _ => 0)
    ⟨by decide, by decide, by decide, by decide, by decide⟩
    ⟨by decide, by decide, fun _ _ _ _ => Nat.le_refl 3⟩ (by decide) (by decide)

end SpecBlock.Building
