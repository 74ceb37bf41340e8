import SpecBlock.Building.BfsKernels
import SpecBlock.Building.HostExpand
import SpecBlock.Foundation.FilledRows

/-!
# Block 1 of a batch

The first kernel of a batch has one program a request. The program reads the request's rows of the
inputs, whose numbers of children are given, and writes the request's rows of the tree, pending and
size buffers. Within them it does what the kernel for one request does: the chain, then the lanes of
a padded tile that a mask selects, each at the place that a masked prefix sum over the tile gives
it.

The host builder concatenates repeated arrays instead. Both write the same rows at the same places.
-/

namespace SpecBlock.Building.Sglang
open Segments Stores FilledRows Triton

variable {S : Type}

/-- What block 1 of a batch is built from, as it lies in memory: a row of slots for each request. -/
structure Block1Arrays (S : Type) where
  rankPreds : Nat → Nat
  greedyTarget : Nat → Nat
  greedyLps : Nat → S
  allTopTarget : Nat → Nat
  allTopLps : Nat → S
  slotTopksK : Nat → Nat

/-- The sizes that the first kernel is compiled for, and the strides of its buffers. -/
structure Block1Sizes where
  K : Nat
  maxTopk : Nat
  giveUpClass : Nat
  strideNodes : Nat
  stridePend : Nat

/-- What a launch of the first kernel stores. -/
structure BatchStores (S : Type) where
  tree : List (Nat × TreeRow S)
  pend : List (Nat × PendRow S)
  sizes : List (Nat × Nat)

namespace Block1

section kernel

variable (sizes : Block1Sizes) (arrays : Block1Arrays S) (bidx : Nat)

/-- `slot_topks`. -/
def topks (k : Nat) : Nat := arrays.slotTopksK (bidx * sizes.K + k)

/-- `n_alt_slot`. -/
def nAlt (k : Nat) : Nat := topks sizes arrays bidx k - 1

/-- `total_alts1`. -/
def totalAlts1 : Nat := sum sizes.K (nAlt sizes arrays bidx)

/-- `active_mask_i64`. -/
def activeMask (k : Nat) : Nat := if 1 < topks sizes arrays bidx k then 1 else 0

/-- `active_rank`. -/
def activeRank (k : Nat) : Nat :=
  cumsum (activeMask sizes arrays bidx) k - activeMask sizes arrays bidx k

/-- `n_active`. -/
def nActive : Nat := sum sizes.K (activeMask sizes arrays bidx)

/-- `give_up`: the lane at which the count of ranks that are not zero gets to one. -/
def giveUp : Bool :=
  let rankPreds := fun k => arrays.rankPreds (bidx * sizes.K + k)
  let nonZero := fun k => if rankPreds k = 0 then 0 else 1
  let isFirstNz := fun k => cumsum nonZero k = 1 ∧ nonZero k = 1
  let firstNzRank := sum sizes.K (fun k => if isFirstNz k then rankPreds k else 0)
  decide (0 < sum sizes.K nonZero ∧ firstNzRank = sizes.giveUpClass)

/-- `hitch_add`. -/
def hitchAdd : Nat :=
  let lastActive := sum sizes.K (fun k =>
    if k = sizes.K - 1 then activeMask sizes arrays bidx k else 0)
  if giveUp sizes arrays bidx = false ∧ lastActive = 0 then 1 else 0

/-- `alt_valid`. -/
def altValid (lane : Nat) : Bool :=
  let slotTopksPerAlt := sum sizes.K (fun k =>
    if altK lane = k then topks sizes arrays bidx k else 0)
  decide (altJIdx lane < sizes.maxTopk - 1 ∧ altJ lane < slotTopksPerAlt)

/-- `alt_rank`. -/
def altRank (lane : Nat) : Nat :=
  cumsum (fun lane => (altValid sizes arrays bidx lane).toNat) lane -
    (altValid sizes arrays bidx lane).toNat

/-- The offset of a lane in the tables of the best tokens. -/
def altOff (lane : Nat) : Nat :=
  bidx * sizes.K * sizes.maxTopk + (altK lane * sizes.maxTopk + altJ lane)

variable [AddCommGroup S]

/-- `cum_greedy_lps`. -/
def cumLps (k : Nat) : S := cumsum (fun k => arrays.greedyLps (bidx * sizes.K + k)) k

/-- `cum_greedy_lps_excl`. -/
def cumLpsExcl (k : Nat) : S := cumLps sizes arrays bidx k - arrays.greedyLps (bidx * sizes.K + k)

/-- `alt_lp_node`. -/
def altLpNode (lane : Nat) : S :=
  sum sizes.K (fun k => if altK lane = k then cumLpsExcl sizes arrays bidx k else 0) +
    arrays.allTopLps (altOff sizes bidx lane)

/-- A lane of the chain. -/
def chainRow (k : Nat) : TreeRow S where
  token := arrays.greedyTarget (bidx * sizes.K + k)
  parent := (k : Int) - 1
  lp := cumLps sizes arrays bidx k
  rank := arrays.rankPreds (bidx * sizes.K + k)
  block := 0
  slot := k

/-- A lane of the alternatives. -/
def altRow (lane : Nat) : TreeRow S where
  token := arrays.allTopTarget (altOff sizes bidx lane)
  parent := if altK lane = 0 then -1 else (altK lane : Int) - 1
  lp := altLpNode sizes arrays bidx lane
  rank := arrays.rankPreds (bidx * sizes.K + altK lane)
  block := 0
  slot := altK lane

/-- A lane of the pending alternatives. -/
def altPendRow (lane : Nat) : PendRow S where
  hiddenSlot := altK lane
  inputId := arrays.allTopTarget (altOff sizes bidx lane)
  tttValid := altK lane + 1
  nodeIndex := sizes.K + altRank sizes arrays bidx lane
  cumLp := altLpNode sizes arrays bidx lane

/-- A lane of the pending slots. -/
def activeRow (k : Nat) : PendRow S where
  hiddenSlot := k
  inputId := arrays.greedyTarget (bidx * sizes.K + k)
  tttValid := k + 1
  nodeIndex := k
  cumLp := cumLps sizes arrays bidx k

/-- The row of the end of the chain. -/
def hitchRow : PendRow S where
  hiddenSlot := sizes.K - 1
  inputId := sum sizes.K (fun k =>
    if k = sizes.K - 1 then arrays.greedyTarget (bidx * sizes.K + k) else 0)
  tttValid := sizes.K
  nodeIndex := sizes.K - 1
  cumLp := sum sizes.K (fun k => if k = sizes.K - 1 then cumLps sizes arrays bidx k else 0)

/-- The lanes of the tile that are not masked. -/
def altLanes : List Nat := (List.range (sizes.K * jPad)).filter (altValid sizes arrays bidx)

/-- One program of `_block1_mega_kernel_batched`. -/
def program : BatchStores S where
  tree :=
    (List.range sizes.K).map (fun k =>
      (bidx * sizes.strideNodes + k, chainRow sizes arrays bidx k)) ++
    (altLanes sizes arrays bidx).map (fun lane =>
      (bidx * sizes.strideNodes + (sizes.K + altRank sizes arrays bidx lane),
        altRow sizes arrays bidx lane))
  pend :=
    (altLanes sizes arrays bidx).map (fun lane =>
      (bidx * sizes.stridePend + (nActive sizes arrays bidx + altRank sizes arrays bidx lane),
        altPendRow sizes arrays bidx lane)) ++
    ((List.range sizes.K).filter (fun k => activeMask sizes arrays bidx k = 1)).map (fun k =>
      (bidx * sizes.stridePend + activeRank sizes arrays bidx k, activeRow sizes arrays bidx k)) ++
    if hitchAdd sizes arrays bidx = 1 then
      [(bidx * sizes.stridePend + (nActive sizes arrays bidx + totalAlts1 sizes arrays bidx),
        hitchRow sizes arrays bidx)]
    else []
  sizes := [
    (bidx * 4, sizes.K + totalAlts1 sizes arrays bidx),
    (bidx * 4 + 1, nActive sizes arrays bidx),
    (bidx * 4 + 2, totalAlts1 sizes arrays bidx),
    (bidx * 4 + 3, nActive sizes arrays bidx + totalAlts1 sizes arrays bidx +
      hitchAdd sizes arrays bidx)]

end kernel

end Block1

/-- `_block1_mega_kernel_batched` over so many requests. -/
def block1MegaKernelBatched [AddCommGroup S] (sizes : Block1Sizes) (arrays : Block1Arrays S)
    (B : Nat) : BatchStores S where
  tree := (List.range B).flatMap (fun b => (Block1.program sizes arrays b).tree)
  pend := (List.range B).flatMap (fun b => (Block1.program sizes arrays b).pend)
  sizes := (List.range B).flatMap (fun b => (Block1.program sizes arrays b).sizes)

section host

variable (sizes : Block1Sizes) (arrays : Block1Arrays S) (bidx : Nat)

/-- The rows of a request, as the host builder gets them. -/
def hostBlock1 : DraftBlock1 S where
  rankPreds := fun k => arrays.rankPreds (bidx * sizes.K + k)
  greedyTarget := fun k => arrays.greedyTarget (bidx * sizes.K + k)
  greedyLps := fun k => arrays.greedyLps (bidx * sizes.K + k)
  topTarget := fun k j => arrays.allTopTarget (bidx * sizes.K * sizes.maxTopk + (k * sizes.maxTopk + j))
  topLps := fun k j => arrays.allTopLps (bidx * sizes.K * sizes.maxTopk + (k * sizes.maxTopk + j))
  roundedAlloc := fun _ => 0

/-- What the host builder makes of a request. -/
def hostExpanded [AddCommGroup S] : BuildState S :=
  Host.expandBlock1 (hostBlock1 sizes arrays bidx) (Block1.topks sizes arrays bidx) sizes.K
    sizes.giveUpClass

end host

section hostRows

theorem zip_flatMap {α β γ : Type} (items : List α) (first : α → List β) (second : α → List γ)
    (paired : ∀ item, (first item).length = (second item).length) :
    (items.flatMap first).zip (items.flatMap second) =
      items.flatMap (fun item => (first item).zip (second item)) := by
  induction items with
  | nil => rfl
  | cons item items ih =>
    rw [List.flatMap_cons, List.flatMap_cons, List.flatMap_cons, List.zip_append (paired item),
      ih]

theorem flatMap_filter_quiet {α β : Type} (items : List α) (keep : α → Bool) (give : α → List β)
    (quiet : ∀ item, keep item = false → give item = []) :
    (items.filter keep).flatMap give = items.flatMap give := by
  induction items with
  | nil => rfl
  | cons item items ih =>
    cases kept : keep item with
    | true => rw [List.filter_cons_of_pos kept, List.flatMap_cons, List.flatMap_cons,
        ih]
    | false =>
      rw [List.filter_cons_of_neg (by simp [kept]), List.flatMap_cons, quiet item kept,
        List.nil_append, ih]

theorem slotExpanded_eq (topks : Nat → Nat) (K : Nat) :
    Host.slotExpanded topks K =
      spread (fun k => topks k - 1) K (fun k index => (k, index + 1)) := by
  have pieces : ∀ k, (List.replicate (topks k - 1) k).zip (List.range' 1 (topks k - 1)) =
      (List.range (topks k - 1)).map (fun index => (k, index + 1)) := by
    intro k
    apply List.ext_getElem (by simp)
    intro index low high
    simp [Nat.add_comm]
  have quiet : ∀ k, decide (1 < topks k) = false →
      (List.range (topks k - 1)).map (fun index => (k, index + 1)) = [] := by
    intro k inactive
    have few := of_decide_eq_false inactive
    have none : topks k - 1 = 0 := by omega
    rw [none, List.range_zero, List.map_nil]
  rw [Host.slotExpanded, zip_flatMap _ _ _ (fun k => by simp), Host.activeSlots]
  simp only [pieces]
  exact flatMap_filter_quiet _ _ _ quiet

variable [AddCommGroup S] {draft : DraftBlock1 S} {topks : Nat → Nat} {K giveUpClass : Nat}

theorem expandBlock1_rows : (Host.expandBlock1 draft topks K giveUpClass).rows =
    (List.range K).map (Numpy.chainRow draft) ++
      spread (fun k => topks k - 1) K (fun k index =>
        Numpy.altRow draft ((List.range K).map (Numpy.chainRow draft)) k (index + 1)) := by
  simp only [Host.expandBlock1, slotExpanded_eq, map_spread]

theorem lpAt_chain (more : List (TreeRow S)) {k : Nat} (inside : k < K) :
    Numpy.lpAt ((List.range K).map (Numpy.chainRow draft) ++ more) k =
      Cuda.runningSum draft.greedyLps (k + 1) := by
  have listed : ((List.range K).map (Numpy.chainRow draft) ++ more)[k]? =
      some (Numpy.chainRow draft k) := by
    rw [List.getElem?_append_left (by simpa using inside), List.getElem?_map,
      List.getElem?_range inside, Option.map_some]
  rw [Numpy.lpAt, listed, Option.map_some, Option.getD_some, Numpy.chainRow]

theorem lpAt_alternative {k index : Nat} (slot : k < K) (inside : index < topks k - 1) :
    Numpy.lpAt (Host.expandBlock1 draft topks K giveUpClass).rows
        (K + (before (fun k => topks k - 1) k + index)) =
      (Numpy.altRow draft ((List.range K).map (Numpy.chainRow draft)) k (index + 1)).lp := by
  have length : ((List.range K).map (Numpy.chainRow draft)).length = K := by simp
  rw [Numpy.lpAt, expandBlock1_rows, List.getElem?_append_right (by omega), length,
    Nat.add_sub_cancel_left, spread_getElem? slot inside, Option.map_some, Option.getD_some]

end hostRows

section rows

variable [AddCommGroup S] {sizes : Block1Sizes} {arrays : Block1Arrays S} {bidx : Nat}

/-- The counts fit the tables, and the tables the tile. -/
structure CountsFit (sizes : Block1Sizes) (arrays : Block1Arrays S) (bidx : Nat) : Prop where
  counts : ∀ k < sizes.K, Block1.topks sizes arrays bidx k ≤ sizes.maxTopk
  tile : sizes.maxTopk ≤ 17

omit [AddCommGroup S] in
theorem CountsFit.narrow (fits : CountsFit sizes arrays bidx) :
    ∀ k < sizes.K, Block1.nAlt sizes arrays bidx k ≤ 16 := by
  intro k inside
  have few := fits.counts k inside
  have tile := fits.tile
  rw [Block1.nAlt]
  omega

omit [AddCommGroup S] in
/-- A lane of the tile is in use when it is one of its slot's alternatives. -/
theorem CountsFit.selects (fits : CountsFit sizes arrays bidx) :
    ∀ lane < sizes.K * 16, Block1.altValid sizes arrays bidx lane =
      decide (lane % 16 < Block1.nAlt sizes arrays bidx (lane / 16)) := by
  intro lane inside
  have slot : lane / 16 < sizes.K := Nat.div_lt_of_lt_mul (by rwa [Nat.mul_comm])
  have column : Triton.altJIdx lane = lane % 16 := by
    rw [Triton.altJIdx, Triton.altK, Triton.jPad]
    omega
  have few := fits.counts _ slot
  have matched : Triton.sum sizes.K (fun k =>
      if Triton.altK lane = k then Block1.topks sizes arrays bidx k else 0) =
      Block1.topks sizes arrays bidx (lane / 16) := sum_match _ slot
  simp only [Block1.altValid, matched, Triton.altJ, column, Block1.nAlt]
  exact decide_eq_decide.mpr ⟨fun valid => by omega, fun valid => by omega⟩

omit [AddCommGroup S] in
theorem CountsFit.altLanes (fits : CountsFit sizes arrays bidx) :
    Block1.altLanes sizes arrays bidx =
      spread (Block1.nAlt sizes arrays bidx) sizes.K (fun k index => k * 16 + index) :=
  tileLanes_eq fits.narrow fits.selects

omit [AddCommGroup S] in
theorem CountsFit.altRank (fits : CountsFit sizes arrays bidx) {k index : Nat} (slot : k < sizes.K)
    (inside : index < Block1.nAlt sizes arrays bidx k) :
    Block1.altRank sizes arrays bidx (k * 16 + index) =
      before (Block1.nAlt sizes arrays bidx) k + index :=
  tileRank_eq fits.narrow fits.selects slot inside

theorem block1_chainRow (k : Nat) : Block1.chainRow sizes arrays bidx k =
    Numpy.chainRow (hostBlock1 sizes arrays bidx) k := by
  rw [Block1.chainRow, Block1.cumLps, cumsum_eq_runningSum]
  rfl

theorem block1_altRow {k index : Nat} (slot : k < sizes.K) (column : index < 16) :
    Block1.altRow sizes arrays bidx (k * 16 + index) =
      Numpy.altRow (hostBlock1 sizes arrays bidx)
        ((List.range sizes.K).map (Numpy.chainRow (hostBlock1 sizes arrays bidx))) k (index + 1) := by
  obtain ⟨row, lane⟩ := lane_parts (k := k) column
  have parentLp : Block1.cumLpsExcl sizes arrays bidx k =
      if 0 < k then Numpy.lpAt ((List.range sizes.K).map
        (Numpy.chainRow (hostBlock1 sizes arrays bidx))) (k - 1) else 0 := by
    rw [Block1.cumLpsExcl, Block1.cumLps, cumsum_sub_self]
    cases k with
    | zero => rfl
    | succ k =>
      have chained : Numpy.lpAt ((List.range sizes.K).map
          (Numpy.chainRow (hostBlock1 sizes arrays bidx)) ++ []) k = _ :=
        lpAt_chain [] (Nat.lt_of_succ_lt slot)
      rw [List.append_nil] at chained
      rw [if_pos (Nat.succ_pos k), Nat.add_sub_cancel, chained]
      rfl
  rw [Block1.altRow, Block1.altLpNode, Block1.altOff, row, lane, sum_match _ slot, parentLp,
    Numpy.altRow]
  congr 1
  split
  · rename_i first
    rw [first]
    rfl
  · rfl

/-- The program's rows of the tree are the host's, one behind the other. -/
theorem program_tree (fits : CountsFit sizes arrays bidx) :
    (Block1.program sizes arrays bidx).tree =
      placed (bidx * sizes.strideNodes) (hostExpanded sizes arrays bidx).rows := by
  rw [hostExpanded, expandBlock1_rows, placed_append, placed_range, placed_spread,
    Block1.program, fits.altLanes, map_spread]
  simp only [block1_chainRow, List.length_map, List.length_range]
  congr 1
  refine spread_congr (fun k _ => rfl) (fun k slot index inside => ?_)
  have column := Nat.lt_of_lt_of_le inside (fits.narrow k slot)
  rw [fits.altRank slot inside, block1_altRow slot column, Nat.add_assoc]
  rfl

omit [AddCommGroup S] in
/-- The kernel and the host find out alike whether the path gives up. -/
theorem block1_giveUp : Block1.giveUp sizes arrays bidx =
    Host.walkGiveUp (hostBlock1 sizes arrays bidx) sizes.K sizes.giveUpClass := by
  have first := first_nonzero (hostBlock1 sizes arrays bidx).rankPreds sizes.K
  simp only [Block1.giveUp, Host.walkGiveUp]
  cases found : ((List.range sizes.K).map (hostBlock1 sizes arrays bidx).rankPreds).find?
      (fun rank => rank != 0) with
  | some rank =>
    rw [found] at first
    rw [Bool.eq_iff_iff, decide_eq_true_iff, beq_iff_eq, Option.some.injEq]
    exact ⟨fun gaveUp => first.2.symm.trans gaveUp.2, fun same => ⟨first.1, first.2.trans same⟩⟩
  | none =>
    rw [found] at first
    rw [Bool.eq_iff_iff, decide_eq_true_iff, beq_iff_eq]
    exact ⟨fun gaveUp => absurd gaveUp.1 (Nat.not_lt.mpr (Nat.le_of_eq first.1)), fun none => nomatch none⟩

theorem activeSlots_eq (topks : Nat → Nat) (K : Nat) : Host.activeSlots topks K =
    spread (fun k => (decide (1 < topks k)).toNat) K (fun k _ => k) :=
  filter_spread _ K

omit [AddCommGroup S] in
theorem block1_activeRank (k : Nat) : Block1.activeRank sizes arrays bidx k =
    before (fun k => (decide (1 < Block1.topks sizes arrays bidx k)).toNat) k := by
  rw [Block1.activeRank, cumsum_sub]
  refine before_congr (fun k _ => ?_)
  rw [Block1.activeMask]
  by_cases active : 1 < Block1.topks sizes arrays bidx k
  · simp [active]
  · simp [active]

omit [AddCommGroup S] in
theorem block1_nActive : Block1.nActive sizes arrays bidx =
    (Host.activeSlots (Block1.topks sizes arrays bidx) sizes.K).length := by
  rw [activeSlots_eq, spread_length, ← block1_activeRank, Block1.activeRank, cumsum_sub,
    Block1.nActive, sum_eq_before]

omit [AddCommGroup S] in
theorem block1_totalAlts1 : Block1.totalAlts1 sizes arrays bidx =
    before (Block1.nAlt sizes arrays bidx) sizes.K := sum_eq_before _ _

/-- The host's pending slots. -/
def pendActive (draft : DraftBlock1 S) (topks : Nat → Nat) (K giveUpClass : Nat) : List (PendRow S) :=
  (Host.activeSlots topks K).map
    (Numpy.greedyPend draft (Host.expandBlock1 draft topks K giveUpClass).rows)

/-- The host's pending alternatives. -/
def pendAlts (draft : DraftBlock1 S) (topks : Nat → Nat) (K giveUpClass : Nat) :
    List (PendRow S) :=
  spread (fun k => topks k - 1) K (fun k index =>
    Numpy.altPend draft (Host.expandBlock1 draft topks K giveUpClass).rows
      ((k, index + 1), K + (before (fun k => topks k - 1) k + index)))

/-- The host's pending end of the chain. -/
def pendHitch (draft : DraftBlock1 S) (topks : Nat → Nat) (K giveUpClass : Nat) :
    List (PendRow S) :=
  if Host.walkGiveUp draft K giveUpClass = false ∧ ¬ 1 < topks (K - 1) then
    [{ Numpy.greedyPend draft (Host.expandBlock1 draft topks K giveUpClass).rows (K - 1) with
      tttValid := K }]
  else []

/-- The host's pending rows: the slots that branch, the alternatives and the end of the chain. -/
theorem expandBlock1_pend (draft : DraftBlock1 S) (topks : Nat → Nat) {K : Nat} (giveUpClass : Nat)
    (slots : 0 < K) : (Host.expandBlock1 draft topks K giveUpClass).pend =
      pendActive draft topks K giveUpClass ++ pendAlts draft topks K giveUpClass ++
        pendHitch draft topks K giveUpClass := by
  have alternatives : ((Host.slotExpanded topks K).zipIdx K).map (Numpy.altPend draft
      (Host.expandBlock1 draft topks K giveUpClass).rows) = pendAlts draft topks K giveUpClass := by
    rw [slotExpanded_eq, List.zipIdx_eq_map_add, zipIdx_spread, map_spread, map_spread, pendAlts]
  have listed : ((pendActive draft topks K giveUpClass ++
      pendAlts draft topks K giveUpClass).map PendRow.nodeIndex).contains (K - 1) =
        decide (1 < topks (K - 1)) := by
    rw [Bool.eq_iff_iff, List.contains_iff_mem, decide_eq_true_iff, List.map_append,
      List.mem_append]
    constructor
    · rintro (active | alternative)
      · obtain ⟨row, member, here⟩ := List.mem_map.mp active
        obtain ⟨k, branching, rfl⟩ := List.mem_map.mp member
        obtain rfl : k = K - 1 := here
        exact of_decide_eq_true (List.mem_filter.mp branching).2
      · obtain ⟨row, member, here⟩ := List.mem_map.mp alternative
        obtain ⟨k, index, _, _, rfl⟩ := mem_spread.mp member
        have place : K + (before (fun k => topks k - 1) k + index) = K - 1 := here
        omega
    · intro branching
      refine Or.inl (List.mem_map.mpr ⟨_, List.mem_map.mpr ⟨K - 1, ?_, rfl⟩, rfl⟩)
      exact List.mem_filter.mpr ⟨List.mem_range.mpr (by omega), decide_eq_true branching⟩
  simp only [Host.expandBlock1] at alternatives ⊢
  rw [alternatives]
  simp only [pendActive, Host.expandBlock1] at listed ⊢
  rw [listed]
  congr 1
  rw [pendHitch]
  by_cases gaveUp : Host.walkGiveUp draft K giveUpClass = true
  · simp [gaveUp]
  · by_cases branching : 1 < topks (K - 1)
    · simp [gaveUp, branching]
    · simp [gaveUp, branching, Host.expandBlock1]

theorem block1_activeRow {k : Nat} (slot : k < sizes.K) : Block1.activeRow sizes arrays bidx k =
    Numpy.greedyPend (hostBlock1 sizes arrays bidx) (hostExpanded sizes arrays bidx).rows k := by
  rw [Block1.activeRow, Block1.cumLps, cumsum_eq_runningSum, Numpy.greedyPend, hostExpanded,
    expandBlock1_rows, lpAt_chain _ slot]
  rfl

theorem block1_hitchRow (slots : 0 < sizes.K) : Block1.hitchRow sizes arrays bidx =
    { Numpy.greedyPend (hostBlock1 sizes arrays bidx) (hostExpanded sizes arrays bidx).rows
        (sizes.K - 1) with tttValid := sizes.K } := by
  have last : sizes.K - 1 < sizes.K := Nat.sub_lt slots Nat.one_pos
  rw [← block1_activeRow last, Block1.hitchRow]
  simp only [eq_comm (b := sizes.K - 1)]
  rw [sum_match (fun k => arrays.greedyTarget (bidx * sizes.K + k)) last,
    sum_match (Block1.cumLps sizes arrays bidx) last]
  rfl

theorem block1_altPendRow (fits : CountsFit sizes arrays bidx) {k index : Nat} (slot : k < sizes.K)
    (inside : index < Block1.nAlt sizes arrays bidx k) :
    Block1.altPendRow sizes arrays bidx (k * 16 + index) =
      Numpy.altPend (hostBlock1 sizes arrays bidx) (hostExpanded sizes arrays bidx).rows
        ((k, index + 1), sizes.K + (before (Block1.nAlt sizes arrays bidx) k + index)) := by
  have column := Nat.lt_of_lt_of_le inside (fits.narrow k slot)
  obtain ⟨row, lane⟩ := lane_parts (k := k) column
  have lp : Block1.altLpNode sizes arrays bidx (k * 16 + index) =
      Numpy.lpAt (hostExpanded sizes arrays bidx).rows
        (sizes.K + (before (Block1.nAlt sizes arrays bidx) k + index)) := by
    have same : Block1.altRow sizes arrays bidx (k * 16 + index) = _ := block1_altRow slot column
    exact (congrArg TreeRow.lp same).trans (lpAt_alternative slot inside).symm
  rw [Block1.altPendRow, fits.altRank slot inside, lp, Block1.altOff, row, lane]
  rfl

omit [AddCommGroup S] in
/-- The end of the chain is pending on its own in the kernel as it is for the host. -/
theorem block1_hitchAdd (slots : 0 < sizes.K) : Block1.hitchAdd sizes arrays bidx =
    if Host.walkGiveUp (hostBlock1 sizes arrays bidx) sizes.K sizes.giveUpClass = false ∧
      ¬ 1 < Block1.topks sizes arrays bidx (sizes.K - 1) then 1 else 0 := by
  have last := sum_match (Block1.activeMask sizes arrays bidx) (Nat.sub_lt slots Nat.one_pos)
  have inactive : Block1.activeMask sizes arrays bidx (sizes.K - 1) = 0 ↔
      ¬ 1 < Block1.topks sizes arrays bidx (sizes.K - 1) := by
    rw [Block1.activeMask]
    split <;> simp_all
  simp only [Block1.hitchAdd, block1_giveUp]
  simp only [eq_comm (b := sizes.K - 1), last, inactive]

/-- The host's pending slots with their places are the program's. -/
theorem program_active :
    placed (bidx * sizes.stridePend) (pendActive (hostBlock1 sizes arrays bidx)
        (Block1.topks sizes arrays bidx) sizes.K sizes.giveUpClass) =
      ((List.range sizes.K).filter (fun k => Block1.activeMask sizes arrays bidx k = 1)).map
        (fun k => (bidx * sizes.stridePend + Block1.activeRank sizes arrays bidx k,
          Block1.activeRow sizes arrays bidx k)) := by
  have selected : (List.range sizes.K).filter (fun k => Block1.activeMask sizes arrays bidx k = 1) =
      Host.activeSlots (Block1.topks sizes arrays bidx) sizes.K := by
    refine List.filter_congr (fun k _ => decide_eq_decide.mpr ?_)
    rw [Block1.activeMask]
    split <;> simp_all
  rw [selected, pendActive, activeSlots_eq, map_spread, map_spread, placed_spread]
  refine spread_congr (fun _ _ => rfl) (fun k slot index inside => ?_)
  have first : index = 0 := by
    have one := Bool.toNat_le (decide (1 < Block1.topks sizes arrays bidx k))
    omega
  rw [block1_activeRow slot, block1_activeRank, first, Nat.add_zero]
  rfl

theorem program_pend (fits : CountsFit sizes arrays bidx) (slots : 0 < sizes.K) :
    (Block1.program sizes arrays bidx).pend.Perm
      (placed (bidx * sizes.stridePend) (hostExpanded sizes arrays bidx).pend) := by
  have alternatives : (Block1.altLanes sizes arrays bidx).map (fun lane =>
      (bidx * sizes.stridePend + (Block1.nActive sizes arrays bidx +
        Block1.altRank sizes arrays bidx lane), Block1.altPendRow sizes arrays bidx lane)) =
      placed (bidx * sizes.stridePend + Block1.nActive sizes arrays bidx)
        (pendAlts (hostBlock1 sizes arrays bidx) (Block1.topks sizes arrays bidx) sizes.K
          sizes.giveUpClass) := by
    rw [fits.altLanes, map_spread, pendAlts, placed_spread]
    refine spread_congr (fun _ _ => rfl) (fun k slot index inside => ?_)
    rw [fits.altRank slot inside, block1_altPendRow fits slot inside, Nat.add_assoc]
    rfl
  have hitched : (if Block1.hitchAdd sizes arrays bidx = 1 then
      [(bidx * sizes.stridePend + (Block1.nActive sizes arrays bidx +
        Block1.totalAlts1 sizes arrays bidx), Block1.hitchRow sizes arrays bidx)] else []) =
      placed (bidx * sizes.stridePend + (Block1.nActive sizes arrays bidx +
        Block1.totalAlts1 sizes arrays bidx)) (pendHitch (hostBlock1 sizes arrays bidx)
          (Block1.topks sizes arrays bidx) sizes.K sizes.giveUpClass) := by
    rw [block1_hitchAdd slots, pendHitch]
    split
    · rw [if_pos rfl, block1_hitchRow slots]
      rfl
    · rw [if_neg Nat.zero_ne_one]
      rfl
  have activeLength : (pendActive (hostBlock1 sizes arrays bidx) (Block1.topks sizes arrays bidx)
      sizes.K sizes.giveUpClass).length = Block1.nActive sizes arrays bidx := by
    rw [pendActive, List.length_map, block1_nActive]
  have altLength : (pendAlts (hostBlock1 sizes arrays bidx) (Block1.topks sizes arrays bidx)
      sizes.K sizes.giveUpClass).length = Block1.totalAlts1 sizes arrays bidx := by
    rw [pendAlts, spread_length, block1_totalAlts1]
    rfl
  rw [hostExpanded, expandBlock1_pend _ _ _ slots, placed_append, placed_append, List.length_append,
    activeLength, altLength, program_active, ← alternatives, ← hitched]
  exact List.perm_append_comm.append_right _

/-- The program's sizes: the node count, how many slots branch, the alternatives, and how many rows
are pending. -/
theorem program_sizes (slots : 0 < sizes.K) :
    (Block1.program sizes arrays bidx).sizes = placed (bidx * 4) [
      (hostExpanded sizes arrays bidx).rows.length,
      (Host.activeSlots (Block1.topks sizes arrays bidx) sizes.K).length,
      (Host.slotExpanded (Block1.topks sizes arrays bidx) sizes.K).length,
      (hostExpanded sizes arrays bidx).pend.length] := by
  have nodes : (hostExpanded sizes arrays bidx).rows.length =
      sizes.K + Block1.totalAlts1 sizes arrays bidx := by
    rw [hostExpanded, expandBlock1_rows, List.length_append, List.length_map, List.length_range,
      spread_length, block1_totalAlts1]
    rfl
  have alternatives : (Host.slotExpanded (Block1.topks sizes arrays bidx) sizes.K).length =
      Block1.totalAlts1 sizes arrays bidx := by
    rw [slotExpanded_eq, spread_length, block1_totalAlts1]
    rfl
  have hitched : (pendHitch (hostBlock1 sizes arrays bidx) (Block1.topks sizes arrays bidx) sizes.K
      sizes.giveUpClass).length = Block1.hitchAdd sizes arrays bidx := by
    rw [block1_hitchAdd slots, pendHitch]
    split <;> rfl
  have pending : (hostExpanded sizes arrays bidx).pend.length =
      Block1.nActive sizes arrays bidx + Block1.totalAlts1 sizes arrays bidx +
        Block1.hitchAdd sizes arrays bidx := by
    rw [hostExpanded, expandBlock1_pend _ _ _ slots, List.length_append, List.length_append, hitched,
      pendActive, List.length_map, ← block1_nActive, pendAlts, spread_length, block1_totalAlts1]
    rfl
  rw [nodes, alternatives, pending, ← block1_nActive]
  rfl

end rows

end SpecBlock.Building.Sglang
