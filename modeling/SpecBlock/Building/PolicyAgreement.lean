import SpecBlock.Building.BfsKernels
import SpecBlock.Building.HostExpand

/-!
# The branching policy on the device and on the host

In block 1, the device and the host give every slot the same number of children, except in the
mode that looks past the table entry of a likely slot: there the host leaves children to the first
slot that gives up, and the device does not.

In a later block they give every leaf and slot the same number. What they expand still differs. The
host stops at the first slot of a leaf that gives up, when the table has no children for that, and
the kernels go on behind it. The kernels leave out the children that a tile of sixteen columns does
not have.
-/

namespace SpecBlock.Building
open Segments

section triples

variable {N K : Nat} {count other : Nat → Nat → Nat}

/-- The pairs of a leaf and a slot with a count that is not zero, row by row. -/
def triples (N K : Nat) (count : Nat → Nat → Nat) : List (Nat × Nat × Nat) :=
  (List.range N).flatMap (fun leaf =>
    ((List.range K).filter (fun slot => decide (0 < count leaf slot))).map (fun slot =>
      (leaf, slot, count leaf slot)))

theorem mem_triples {leaf slot value : Nat} : (leaf, slot, value) ∈ triples N K count ↔
    leaf < N ∧ slot < K ∧ 0 < value ∧ count leaf slot = value := by
  simp only [triples, List.mem_flatMap, List.mem_range, List.mem_map, List.mem_filter,
    decide_eq_true_eq, Prod.mk.injEq]
  constructor
  · rintro ⟨row, low, column, ⟨inside, positive⟩, rfl, rfl, rfl⟩
    exact ⟨low, inside, positive, rfl⟩
  · rintro ⟨low, inside, positive, rfl⟩
    exact ⟨leaf, low, slot, ⟨inside, positive⟩, rfl, rfl, rfl⟩

theorem triples_eq_iff : triples N K count = triples N K other ↔
    ∀ leaf < N, ∀ slot < K, count leaf slot = other leaf slot := by
  constructor
  · intro same leaf low slot inside
    rcases Nat.eq_zero_or_pos (count leaf slot) with zero | positive
    · rcases Nat.eq_zero_or_pos (other leaf slot) with nothing | present
      · rw [zero, nothing]
      · have listed : (leaf, slot, other leaf slot) ∈ triples N K other :=
          mem_triples.mpr ⟨low, inside, present, rfl⟩
        rw [← same] at listed
        exact (mem_triples.mp listed).2.2.2
    · have listed : (leaf, slot, count leaf slot) ∈ triples N K count :=
        mem_triples.mpr ⟨low, inside, positive, rfl⟩
      rw [same] at listed
      exact (mem_triples.mp listed).2.2.2.symm
  · intro same
    refine List.flatMap_congr (fun leaf leafMember => ?_)
    have row := same leaf (List.mem_range.mp leafMember)
    have selected : (List.range K).filter (fun slot => decide (0 < count leaf slot)) =
        (List.range K).filter (fun slot => decide (0 < other leaf slot)) := by
      refine List.filter_congr (fun slot member => ?_)
      rw [row slot (List.mem_range.mp member)]
    rw [selected]
    refine List.map_congr_left (fun slot member => ?_)
    rw [row slot (List.mem_range.mp (List.mem_filter.mp member).1)]

end triples

section kernel

variable {S : Type}

/-- The pairs of a leaf and a slot that the scatter programs of a launch store alternatives for,
each with the number of alternatives. -/
def Sglang.launchTriples (sizes : Sglang.LaunchSizes) (arrays : Sglang.BfsArrays S) (N : Nat) :
    List (Nat × Nat × Nat) :=
  triples N sizes.K (fun leaf slot => (Sglang.altColumns sizes arrays leaf slot).length)

/-- `max_topk`. -/
def Policy.maxTopk (settings : SlotSettings S) : Nat :=
  max settings.beamWidth (settings.rankSlotTopk.foldr max 0)

/-- The arrays of a later block as the device holds them. -/
def Sglang.flatArrays (settings : SlotSettings S) (K : Nat) (draft : DraftNext S) :
    Sglang.BfsArrays S where
  allRankPreds := fun index => draft.rankPreds (index / K) (index % K)
  allGreedyTarget := fun index => draft.greedyTarget (index / K) (index % K)
  allGreedyLps := fun index => draft.greedyLps (index / K) (index % K)
  topTargetAll := fun index => draft.topTarget (index / Policy.maxTopk settings / K)
    (index / Policy.maxTopk settings % K) (index % Policy.maxTopk settings)
  topLpsAll := fun index => draft.topLps (index / Policy.maxTopk settings / K)
    (index / Policy.maxTopk settings % K) (index % Policy.maxTopk settings)
  slotTopksNK := fun index => Policy.computeSlotTopksBfsGpu settings draft.greedyLps
    draft.rankPreds (index / K) (index % K)

end kernel

section agreement

variable {S : Type} {settings : SlotSettings S} {draft : DraftNext S} {K leaf slot : Nat}

theorem tableTopk_le (rank : Nat) : Policy.tableTopk settings rank ≤ Policy.maxTopk settings := by
  have entry : ∀ (table : List Nat) (rank : Nat), table.getD rank 0 ≤ table.foldr max 0 := by
    intro table
    induction table with
    | nil => exact fun rank => Nat.le_refl 0
    | cons first rest ih =>
      intro rank
      cases rank with
      | zero => exact Nat.le_max_left _ _
      | succ rank => exact (ih rank).trans (Nat.le_max_right _ _)
  exact (entry settings.rankSlotTopk rank).trans (Nat.le_max_right _ _)

/-- A slot that branches gets no more children than the tables have columns. -/
theorem topk_le_maxTopk
    (branching : 1 < Policy.computeSlotTopksBfsGpu settings draft.greedyLps draft.rankPreds leaf slot) :
    Policy.computeSlotTopksBfsGpu settings draft.greedyLps draft.rankPreds leaf slot ≤
      Policy.maxTopk settings := by
  have entry : Policy.tableTopk settings (draft.rankPreds leaf slot) ≤ _ := tableTopk_le _
  rw [Policy.computeSlotTopksBfsGpu] at branching ⊢
  split_ifs at branching ⊢ <;> omega

/-- The number of alternatives that the kernels store for a leaf and slot. -/
theorem altColumns_length (inside : slot < K) (pendDepth : Nat) :
    let topk := Policy.computeSlotTopksBfsGpu settings draft.greedyLps draft.rankPreds leaf slot
    (Sglang.altColumns ⟨K, Policy.maxTopk settings, pendDepth⟩ (Sglang.flatArrays settings K draft)
      leaf slot).length = min (topk - 1) 16 := by
  intro topk
  have row : (leaf * K + slot) / K = leaf := Stores.address_div inside
  have column : (leaf * K + slot) % K = slot := Stores.address_mod inside
  have loaded : Sglang.slotTopks ⟨K, Policy.maxTopk settings, pendDepth⟩
      (Sglang.flatArrays settings K draft) leaf slot = topk := by
    simp only [Sglang.slotTopks, Sglang.flatArrays, row, column, topk]
  rw [Sglang.altColumns_eq, List.length_range, Sglang.nAltSlot_eq, loaded, Triton.jPad]
  by_cases branching : 1 < topk
  · have wide := topk_le_maxTopk branching
    simp only
    omega
  · omega

/-- The host expands no pair at or behind a slot that gives up without children. -/
theorem stopAt_le (inside : slot < K) : Host.stopAt settings draft K leaf ≤ slot ↔
    Policy.tableTopk settings (Policy.giveUpClass settings) = 0 ∧
      ∃ g ≤ slot, draft.rankPreds leaf g = Policy.giveUpClass settings := by
  rw [Host.stopAt]
  by_cases children : 0 < Policy.tableTopk settings (Policy.giveUpClass settings)
  · rw [if_pos children]
    constructor
    · intro low
      omega
    · rintro ⟨none, _⟩
      omega
  · rw [if_neg children]
    cases found : (List.range K).find? (fun slot =>
        draft.rankPreds leaf slot == Policy.giveUpClass settings) with
    | none =>
      have never := List.find?_eq_none.mp found
      constructor
      · intro low
        rw [Option.getD_none] at low
        omega
      · rintro ⟨_, g, low, here⟩
        exact absurd (beq_iff_eq.mpr here) (never g (List.mem_range.mpr (by omega)))
    | some first =>
      obtain ⟨here, before, after, split, earlier⟩ := List.find?_eq_some_iff_append.mp found
      have place : first = before.length := by
        have entry : (List.range K)[before.length]? = some first := by simp [split]
        obtain ⟨within, value⟩ := List.getElem?_eq_some_iff.mp entry
        rw [← value, List.getElem_range]
      rw [Option.getD_some]
      constructor
      · intro low
        exact ⟨by omega, first, low, beq_iff_eq.mp here⟩
      · rintro ⟨_, g, low, gaveUp⟩
        by_contra behind
        have listed : g ∈ before := by
          have entry : before[g]? = some g := by
            have whole : (List.range K)[g]? = some g := List.getElem?_range (by omega)
            rw [split, List.getElem?_append_left (by omega)] at whole
            exact whole
          exact List.mem_of_getElem? entry
        have other := earlier g listed
        rw [gaveUp] at other
        simp at other

variable [AddCommGroup S]

omit [AddCommGroup S] in
theorem expandedTriples_eq (topks : Nat → Nat → Nat) (N : Nat) :
    Host.expandedTriples settings draft topks K N = triples N K (fun leaf slot =>
      if slot < Host.stopAt settings draft K leaf then topks leaf slot - 1 else 0) := by
  rw [Host.expandedTriples, Host.activePairs, List.map_flatMap, triples]
  refine List.flatMap_congr (fun leaf _ => ?_)
  have selected : (List.range K).filter (Host.slotActive settings draft topks K leaf) =
      (List.range K).filter (fun slot => decide (0 < if slot < Host.stopAt settings draft K leaf
        then topks leaf slot - 1 else 0)) := by
    refine List.filter_congr (fun slot _ => decide_eq_decide.mpr ?_)
    split
    · omega
    · omega
  rw [List.map_map, selected]
  refine List.map_congr_left (fun slot member => ?_)
  have active := of_decide_eq_true (List.mem_filter.mp member).2
  by_cases early : slot < Host.stopAt settings draft K leaf
  · simp only [if_pos early]
    rfl
  · rw [if_neg early] at active
    exact absurd active (Nat.lt_irrefl 0)

end agreement

section policy

variable {S : Type}

/-- What the device and the host are to agree on: the children of each slot of block 1, alone and
in a batch, and the pairs of a leaf and a slot that a later block expands, with their
alternatives. -/
structure PolicyAgrees (settings : SlotSettings S) (B K : Nat) (glp : Nat → Nat → S)
    (rp : Nat → Nat → Nat) (N pendDepth : Nat) (draft : DraftNext S) : Prop where
  single : ∀ b < B, Policy.computeSlotTopksBlock1Gpu settings (glp b) (rp b) K =
    Policy.computeSlotTopksBlock1 settings (glp b) (rp b) K
  batched : Policy.computeSlotTopksBlock1GpuBatched settings glp rp B K =
    (List.range B).map (fun b => Policy.computeSlotTopksBlock1 settings (glp b) (rp b) K)
  expanded : Sglang.launchTriples ⟨K, Policy.maxTopk settings, pendDepth⟩
      (Sglang.flatArrays settings K draft) N =
    Host.expandedTriples settings draft
      (Policy.computeSlotTopksBfs settings draft.greedyLps draft.rankPreds) K N

/-- No row of block 1 keeps children at its first slot to give up, no slot of a leaf branches
behind one that gives up without children, and none has more than seventeen children. -/
structure PolicyRegular (settings : SlotSettings S) (B K : Nat) (glp : Nat → Nat → S)
    (rp : Nat → Nat → Nat) (N : Nat) (draft : DraftNext S) : Prop where
  block1 : ∀ b < B, ¬ Policy.KeepsGiveUp settings (glp b) (rp b) K
  behind : Policy.tableTopk settings (Policy.giveUpClass settings) = 0 →
    ∀ leaf < N, ∀ slot < K, (∃ g ≤ slot, draft.rankPreds leaf g = Policy.giveUpClass settings) →
      ¬ Policy.Branches settings draft.greedyLps draft.rankPreds leaf slot
  narrow : ∀ leaf < N, ∀ slot < K,
    ¬ (17 < Policy.tableTopk settings (draft.rankPreds leaf slot) ∧
      Policy.Uncut settings draft.greedyLps leaf slot)

/-- The pairs that a later block expands are the same exactly for regular leaves. -/
theorem expanded_iff (settings : SlotSettings S) (K N pendDepth : Nat) (draft : DraftNext S) :
    Sglang.launchTriples ⟨K, Policy.maxTopk settings, pendDepth⟩
        (Sglang.flatArrays settings K draft) N =
      Host.expandedTriples settings draft
        (Policy.computeSlotTopksBfs settings draft.greedyLps draft.rankPreds) K N ↔
    (Policy.tableTopk settings (Policy.giveUpClass settings) = 0 →
      ∀ leaf < N, ∀ slot < K, (∃ g ≤ slot, draft.rankPreds leaf g = Policy.giveUpClass settings) →
        ¬ Policy.Branches settings draft.greedyLps draft.rankPreds leaf slot) ∧
    (∀ leaf < N, ∀ slot < K, ¬ (17 < Policy.tableTopk settings (draft.rankPreds leaf slot) ∧
      Policy.Uncut settings draft.greedyLps leaf slot)) := by
  rw [Sglang.launchTriples, expandedTriples_eq, triples_eq_iff]
  have counts : ∀ leaf < N, ∀ slot < K,
      ((Sglang.altColumns ⟨K, Policy.maxTopk settings, pendDepth⟩
          (Sglang.flatArrays settings K draft) leaf slot).length =
        (if slot < Host.stopAt settings draft K leaf then
          Policy.computeSlotTopksBfs settings draft.greedyLps draft.rankPreds leaf slot - 1 else 0) ↔
      ¬ (Host.stopAt settings draft K leaf ≤ slot ∧
          1 < Policy.computeSlotTopksBfsGpu settings draft.greedyLps draft.rankPreds leaf slot) ∧
        ¬ 17 < Policy.computeSlotTopksBfsGpu settings draft.greedyLps draft.rankPreds leaf slot) := by
    intro leaf _ slot inside
    rw [altColumns_length inside pendDepth, Policy.computeSlotTopksBfs_eq]
    split
    · omega
    · omega
  constructor
  · intro same
    constructor
    · intro childless leaf low slot inside gaveUp branching
      have agreed := (counts leaf low slot inside).mp (same leaf low slot inside)
      exact agreed.1 ⟨(stopAt_le inside).mpr ⟨childless, gaveUp⟩,
        (Policy.branches_iff leaf slot).mpr branching⟩
    · intro leaf low slot inside wide
      have agreed := (counts leaf low slot inside).mp (same leaf low slot inside)
      exact agreed.2 ((Policy.topk_gt_iff (by decide) leaf slot).mpr wide)
  · rintro ⟨behind, narrow⟩ leaf low slot inside
    refine (counts leaf low slot inside).mpr ⟨?_, ?_⟩
    · rintro ⟨stopped, branching⟩
      obtain ⟨childless, gaveUp⟩ := (stopAt_le inside).mp stopped
      exact behind childless leaf low slot inside gaveUp
        ((Policy.branches_iff leaf slot).mp branching)
    · intro wide
      exact narrow leaf low slot inside ((Policy.topk_gt_iff (by decide) leaf slot).mp wide)

/-- **The branching policy is the same on the device and on the host** exactly when no first slot
to give up keeps children, none branches behind a slot that gives up without children, and none has
more than seventeen children: for all numbers of slots, tables, modes, beam widths, rank
predictions and probabilities. -/
theorem branching_policy_iff (settings : SlotSettings S) (B K : Nat) (glp : Nat → Nat → S)
    (rp : Nat → Nat → Nat) (N pendDepth : Nat) (draft : DraftNext S) :
    PolicyAgrees settings B K glp rp N pendDepth draft ↔
      PolicyRegular settings B K glp rp N draft := by
  constructor
  · rintro ⟨single, _, expanded⟩
    obtain ⟨behind, narrow⟩ := (expanded_iff settings K N pendDepth draft).mp expanded
    exact ⟨fun b low => Policy.block1_eq_iff K |>.mp (single b low), behind, narrow⟩
  · rintro ⟨block1, behind, narrow⟩
    have single : ∀ b < B, Policy.computeSlotTopksBlock1Gpu settings (glp b) (rp b) K =
        Policy.computeSlotTopksBlock1 settings (glp b) (rp b) K :=
      fun b low => (Policy.block1_eq_iff K).mpr (block1 b low)
    refine ⟨single, ?_, (expanded_iff settings K N pendDepth draft).mpr ⟨behind, narrow⟩⟩
    exact List.map_congr_left (fun b member => single b (List.mem_range.mp member))

end policy

/-- The table whose last class has no children, in a mode. -/
def givingUp (mode : Int) : SlotSettings Int where
  beamWidth := 10
  rankSlotTopk := [2, 4, 10, 0]
  rankClasses := 4
  adaptiveSlot0 := 0
  adaptiveAll := mode
  atLeast := fun lp hundredths => hundredths ≤ lp.toNat
  falling := fun _ _ _ smaller likely =>
    decide_eq_true (smaller.trans (of_decide_eq_true likely))

/-- A leaf whose first slot gives up and whose second one has ten children. -/
def gaveUpLeaf : DraftNext Int where
  rankPreds := fun _ slot => if slot = 0 then 3 else 2
  greedyTarget := fun _ _ => 0
  greedyLps := fun _ _ => 0
  topTarget := fun _ _ _ => 0
  topLps := fun _ _ _ => 0

/-- In mode 2 the host leaves three children to a slot that gives up and is likely; without modes
the kernels expand the slot behind one that gives up. -/
theorem branching_policy_differs :
    ¬ PolicyAgrees (givingUp 2) 1 2 (fun _ _ => 60) (fun _ slot => if slot = 0 then 0 else 3)
      0 1 gaveUpLeaf ∧
    ¬ PolicyAgrees (givingUp 0) 0 2 (fun _ _ => 0) (fun _ _ => 0) 1 1 gaveUpLeaf := by
  constructor
  · intro agrees
    have block1 := agrees.single 0 Nat.one_pos
    revert block1
    decide
  · intro agrees
    obtain ⟨behind, _⟩ := (expanded_iff (givingUp 0) 2 1 1 gaveUpLeaf).mp agrees.expanded
    refine behind rfl 0 Nat.one_pos 1 (by decide) ⟨0, Nat.zero_le 1, rfl⟩ ?_
    exact ⟨by decide, by decide⟩

end SpecBlock.Building
