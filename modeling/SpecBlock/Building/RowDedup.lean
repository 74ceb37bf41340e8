import SpecBlock.Building.DedupBranches
import SpecBlock.Foundation.Compaction

/-!
# De-duplication of a fixed-width tree row

`_dedup_tree_rows_by_depth_kernel` merges the duplicates of a request's raw tree, depth by depth, in
one program. A pass moves the live nodes of its depth to the front of a narrow tile, packed with
their parents and tokens into one key, sorts the tile and numbers its groups. Every node then offers
the bits of its log-probability, turned over, above its inverted index; an atomic maximum leaves one
offer per group, and whoever did not make it is struck out. What became of the nodes is left in a
state word for each, from which the next depth reads its parents.

The atomic maximum starts from zero and is signed. An offer whose top bit is set never wins.
-/

namespace SpecBlock.Building

open Stores FloatBits Compaction

/-- Parents and log-probabilities of a raw row. -/
structure RowTensors where
  parents : Nat → Int
  lps : Nat → Number

/-- The row as a tree without log-probabilities of its own besides. -/
def RowTensors.tree (row : RowTensors) : DedupTensors := ⟨row.parents, row.lps, none⟩

/-- The registers of the lanes, the row in memory and the state words of its nodes. -/
structure RowRegisters extends RowTensors where
  nodeState : Nat → Int

section pass

variable (n N compactN targetD : Nat) (tokens depths : Nat → Nat) (row : RowTensors)

/-- `is_at_d`. -/
def RowAtD (pid : Nat) : Prop := depths pid = targetD ∧ pid < n ∧ row.lps pid ≠ .negInfinity

instance (pid : Nat) : Decidable (RowAtD n targetD depths row pid) :=
  inferInstanceAs (Decidable (depths pid = targetD ∧ pid < n ∧ row.lps pid ≠ .negInfinity))

/-- `packed`, in 64 bits. -/
def packedLane (pid : Nat) : Int :=
  (dedupKey tokens row.parents pid * (N + 1) + pid).bmod 18446744073709551616

/-- `compact_packed`. -/
def compactPacked : Nat → Int :=
  compacted (RowAtD n targetD depths row) N (packedLane N tokens row) sentinelPacked

/-- `n_at_d`. -/
def nAtD : Nat := Nat.count (RowAtD n targetD depths row) N

/-- `sorted_packed`. -/
def sortedCompact : List Int :=
  ((List.range compactN).map (compactPacked n N targetD tokens depths row)).insertionSort (· ≤ ·)

end pass

section groups

variable (N compactN valid : Nat) (sorted : List Int) (lps : Nat → Number)

/-- `sorted_keys_prev` in a tile with so many valid lanes. -/
def rowKeyPrev (lane : Nat) : Int :=
  if 0 < lane ∧ lane < valid then sortedKey N sorted (lane - 1) else -1

/-- `is_first`. -/
def RowFirst (lane : Nat) : Prop :=
  sortedKey N sorted lane ≠ rowKeyPrev N valid sorted lane ∧ lane < valid

instance (lane : Nat) : Decidable (RowFirst N valid sorted lane) :=
  inferInstanceAs (Decidable
    (sortedKey N sorted lane ≠ rowKeyPrev N valid sorted lane ∧ lane < valid))

/-- `group_id`. -/
def rowGroup (lane : Nat) : Int := (Nat.count (RowFirst N valid sorted) (lane + 1) : Int) - 1

/-- `combined`. -/
def rowOffer (lane : Nat) : Int := combinedKey (lps (sortIdx N sorted lane)) (sortIdx N sorted lane)

/-- `winner_combined`: the atomic maximum over the lanes of a group, from zero. -/
def rowWinner (group : Int) : Int :=
  ((List.range compactN).filter (fun lane =>
    lane < valid ∧ rowGroup N valid sorted lane = group)).foldl
      (fun highest lane => max highest (rowOffer N sorted lps lane)) 0

/-- `to_mask`. -/
def RowMasked (lane : Nat) : Prop :=
  lane < valid ∧ rowOffer N sorted lps lane ≠
    rowWinner N compactN valid sorted lps (rowGroup N valid sorted lane)

instance (lane : Nat) : Decidable (RowMasked N compactN valid sorted lps lane) :=
  inferInstanceAs (Decidable (lane < valid ∧ rowOffer N sorted lps lane ≠
    rowWinner N compactN valid sorted lps (rowGroup N valid sorted lane)))

/-- `winner_pid`: the low half of the winning offer, turned over. -/
def rowWinnerPid (lane : Nat) : Int :=
  4294967295 -
    rowWinner N compactN valid sorted lps (rowGroup N valid sorted lane) % 4294967296

/-- `node_state` of a lane: whether its node is masked, above the winner. -/
def laneState (lane : Nat) : Int :=
  (if RowMasked N compactN valid sorted lps lane then 4294967296 else 0) +
    rowWinnerPid N compactN valid sorted lps lane

end groups

section passes

variable (n N compactN : Nat) (tokens depths : Nat → Nat)

/-- One turn of the loop over `target_d`. -/
def rowPass (targetD : Nat) (registers : RowRegisters) : RowRegisters :=
  let row := registers.toRowTensors
  let sorted := sortedCompact n N compactN targetD tokens depths row
  let valid := nAtD n N targetD depths row
  let nodeState := store (fun place => if place < N then 0 else registers.nodeState place)
    (((List.range compactN).filter (fun lane => lane < valid)).map (fun lane =>
      (sortIdx N sorted lane, laneState N compactN valid sorted row.lps lane)))
  { parents := fun pid =>
      let parent := row.parents pid
      let parentState := if pid < n then nodeState parent.toNat else 0
      if 0 ≤ parent ∧ parentState / 4294967296 ≠ 0 then parentState % 4294967296 else parent
    lps := store row.lps
      (((List.range compactN).filter (RowMasked N compactN valid sorted row.lps)).map (fun lane =>
        (sortIdx N sorted lane, .negInfinity)))
    nodeState := nodeState }

/-- The registers after the passes over the first depths. -/
def rowPasses (loaded : RowRegisters) : Nat → RowRegisters
  | 0 => loaded
  | depth + 1 => rowPass n N compactN tokens depths (depth + 1) (rowPasses loaded depth)

end passes

/-- `_dedup_tree_rows_by_depth_kernel` on the row of a request. -/
def dedupTreeRowsByDepthKernel (tokens : Nat → Nat) (n N compactN maxDedupDepth maxWalkDepth : Nat)
    (scratch : Nat → Int) (row : RowTensors) : RowTensors :=
  let loaded : RowRegisters :=
    { parents := fun pid => if pid < n then row.parents pid else -1
      lps := row.lps
      nodeState := scratch }
  let registers := rowPasses n N compactN tokens (laneDepth n maxWalkDepth row.parents) loaded
    maxDedupDepth
  { parents := fun pid => if pid < n then registers.parents pid else row.parents pid
    lps := registers.lps }

section tile

variable {n N compactN depth : Nat} {tokens depths : Nat → Nat} {row : RowTensors}

/-- Depths of the live nodes; dead ones are taken to the root, where nothing is merged. -/
def liveDepths (lps : Nat → Number) (depths : Nat → Nat) (pid : Nat) : Nat :=
  if lps pid = .negInfinity then 0 else depths pid

/-- The nodes of a pass are those of its depth among the live ones. -/
theorem rowAtD_iff {pid : Nat} : RowAtD n (depth + 1) depths row pid ↔
    IsAtD n (depth + 1) (liveDepths row.lps depths) pid := by
  unfold RowAtD IsAtD liveDepths
  split
  · next dead => simp [dead]
  · next alive => simp [alive]

theorem packedLane_eq {pid : Nat} (here : IsAtD n (depth + 1) (liveDepths row.lps depths) pid) :
    packedLane N tokens row pid =
      packedNode n N (depth + 1) tokens (liveDepths row.lps depths) row.parents pid := by
  rw [packedNode, if_pos here, packedLane]

/-- The lane holds a node of the pass. -/
structure HoldsNode (n N depth : Nat) (tokens depths : Nat → Nat) (row : RowTensors)
    (sorted : List Int) (lane pid : Nat) : Prop where
  at_d : IsAtD n (depth + 1) (liveDepths row.lps depths) pid
  packed : sorted.getD lane 0 =
    packedNode n N (depth + 1) tokens (liveDepths row.lps depths) row.parents pid

/-- What the sorted tile holds: the nodes of the pass in its valid lanes, by rising keys. -/
structure SortedTile (n N compactN depth : Nat) (tokens depths : Nat → Nat) (row : RowTensors)
    (valid : Nat) (sorted : List Int) : Prop where
  enough : valid ≤ compactN
  holds : ∀ lane < valid, ∃ pid, HoldsNode n N depth tokens depths row sorted lane pid
  placed : ∀ pid, IsAtD n (depth + 1) (liveDepths row.lps depths) pid →
    ∃ lane < valid, HoldsNode n N depth tokens depths row sorted lane pid
  rising : ∀ low high, low ≤ high → high < valid → sorted.getD low 0 ≤ sorted.getD high 0

theorem sortedTile (packable : Packable n N tokens row.parents)
    (enough : nAtD n N (depth + 1) depths row ≤ compactN) :
    SortedTile n N compactN depth tokens depths row (nAtD n N (depth + 1) depths row)
      (sortedCompact n N compactN (depth + 1) tokens depths row) := by
  let chosen := (List.range N).filter (fun pid => RowAtD n (depth + 1) depths row pid)
  have packed {pid : Nat} (member : pid ∈ chosen) :
      IsAtD n (depth + 1) (liveDepths row.lps depths) pid :=
    rowAtD_iff.mp (of_decide_eq_true (List.mem_filter.mp member).2)
  have small : ∀ key ∈ chosen.map (packedLane N tokens row), key ≤ sentinelPacked := by
    intro key member
    obtain ⟨pid, listed, rfl⟩ := List.mem_map.mp member
    obtain ⟨same, _, bound⟩ := packable.packedNode_eq (packed listed)
    rw [packedLane_eq (packed listed), same]
    exact bound.le
  let keys := (chosen.map (packedLane N tokens row)).insertionSort (· ≤ ·)
  have split : sortedCompact n N compactN (depth + 1) tokens depths row =
      keys ++ List.replicate (compactN - nAtD n N (depth + 1) depths row) sentinelPacked := by
    rw [sortedCompact, compactPacked, compacted_lanes _ _ enough, sort_padded small]
    rfl
  have length : keys.length = nAtD n N (depth + 1) depths row := by
    rw [List.length_insertionSort, List.length_map, length_chosen, nAtD]
  have front {lane : Nat} (inside : lane < keys.length) :
      (sortedCompact n N compactN (depth + 1) tokens depths row).getD lane 0 = keys[lane] := by
    rw [split, List.getD_append _ _ _ _ inside, List.getD_eq_getElem _ _ inside]
  rw [← length]
  refine ⟨length ▸ enough, ?_, ?_, ?_⟩
  · intro lane inside
    obtain ⟨pid, listed, same⟩ :=
      List.mem_map.mp ((List.mem_insertionSort _).mp (List.getElem_mem inside))
    exact ⟨pid, packed listed, (front inside).trans
      (same.symm.trans (packedLane_eq (packed listed)))⟩
  · intro pid here
    have listed : pid ∈ chosen := List.mem_filter.mpr
      ⟨List.mem_range.mpr (Nat.lt_of_lt_of_le here.2 packable.covered),
        decide_eq_true (rowAtD_iff.mpr here)⟩
    have member : packedLane N tokens row pid ∈ keys :=
      (List.mem_insertionSort _).mpr (List.mem_map.mpr ⟨pid, listed, rfl⟩)
    obtain ⟨lane, inside, same⟩ := List.mem_iff_getElem.mp member
    exact ⟨lane, inside, here, (front inside).trans (same.trans (packedLane_eq here))⟩
  · intro low high order inside
    have within : low < keys.length := Nat.lt_of_le_of_lt order inside
    rw [front inside, front within]
    rcases Nat.eq_or_lt_of_le order with same | before
    · subst same
      exact le_refl _
    · exact List.pairwise_iff_getElem.mp (List.pairwise_insertionSort (· ≤ ·) _) low high _ _ before

/-- Nodes of the pass with one token under one parent. -/
def RowTwin (n depth : Nat) (tokens depths : Nat → Nat) (row : RowTensors) : Nat → Nat → Prop :=
  Twin n (depth + 1) tokens (liveDepths row.lps depths) row.parents

variable {valid lane lane' pid other : Nat} {sorted : List Int}

theorem HoldsNode.unpacked (packable : Packable n N tokens row.parents)
    (holds : HoldsNode n N depth tokens depths row sorted lane pid) :
    sortIdx N sorted lane = pid ∧ sortedKey N sorted lane = dedupKey tokens row.parents pid :=
  ⟨(packable.unpack holds.at_d holds.packed).1, (packable.unpack holds.at_d holds.packed).2.1⟩

/-- Valid lanes have one number exactly when they have one key. -/
theorem SortedTile.group_eq_iff
    (tile : SortedTile n N compactN depth tokens depths row valid sorted) (inside : lane < valid)
    (inside' : lane' < valid) :
    rowGroup N valid sorted lane = rowGroup N valid sorted lane' ↔
      sortedKey N sorted lane = sortedKey N sorted lane' := by
  have rising (low high : Nat) (order : low ≤ high) (early : high < valid) :
      sortedKey N sorted low ≤ sortedKey N sorted high :=
    Int.tdiv_le_tdiv (by omega) (tile.rising low high order early)
  have boundary (position : Nat) (early : position + 1 < valid) :
      RowFirst N valid sorted (position + 1) ↔
        sortedKey N sorted (position + 1) ≠ sortedKey N sorted position := by
    simp [RowFirst, rowKeyPrev, early]
  rw [← SortedGroups.count_eq_iff rising boundary inside inside', rowGroup, rowGroup]
  omega

/-- Lanes have one number exactly when their nodes carry one token under one parent. -/
theorem SortedTile.group_iff_twin
    (tile : SortedTile n N compactN depth tokens depths row valid sorted)
    (packable : Packable n N tokens row.parents) (inside : lane < valid) (inside' : lane' < valid)
    (holds : HoldsNode n N depth tokens depths row sorted lane pid)
    (holds' : HoldsNode n N depth tokens depths row sorted lane' other) :
    rowGroup N valid sorted lane' = rowGroup N valid sorted lane ↔
      RowTwin n depth tokens depths row pid other := by
  rw [tile.group_eq_iff inside' inside, (holds.unpacked packable).2, (holds'.unpacked packable).2,
    packable.key_eq_iff holds'.at_d.2 holds.at_d.2]
  constructor
  · rintro ⟨parents, token⟩
    exact ⟨holds.at_d, holds'.at_d, parents.symm, token.symm⟩
  · exact fun twin => ⟨twin.parent.symm, twin.token.symm⟩

theorem HoldsNode.offer (packable : Packable n N tokens row.parents)
    (holds : HoldsNode n N depth tokens depths row sorted lane pid) :
    rowOffer N sorted row.lps lane = combinedKey (row.lps pid) pid := by
  rw [rowOffer, (holds.unpacked packable).1]

/-- The winning offer of a lane's group is the top offer of its node's twins. -/
theorem SortedTile.topOffer (tile : SortedTile n N compactN depth tokens depths row valid sorted)
    (packable : Packable n N tokens row.parents) (inside : lane < valid)
    (holds : HoldsNode n N depth tokens depths row sorted lane pid) :
    TopOffer row.lps (RowTwin n depth tokens depths row pid)
      (rowWinner N compactN valid sorted row.lps (rowGroup N valid sorted lane)) := by
  obtain ⟨reached, least, above⟩ := foldl_max_spec ((List.range compactN).filter (fun other =>
    other < valid ∧ rowGroup N valid sorted other = rowGroup N valid sorted lane))
    (rowOffer N sorted row.lps) 0
  refine ⟨?_, least, ?_⟩
  · rcases reached with zero | ⟨lane', member, same⟩
    · exact .inl zero
    · obtain ⟨inside', group⟩ := of_decide_eq_true (List.mem_filter.mp member).2
      obtain ⟨other, holds'⟩ := tile.holds lane' inside'
      exact .inr ⟨other, (tile.group_iff_twin packable inside inside' holds holds').mp group,
        same.trans (holds'.offer packable)⟩
  · intro other twin
    obtain ⟨lane', inside', holds'⟩ := tile.placed other twin.at_d'
    have group := (tile.group_iff_twin packable inside inside' holds holds').mpr twin
    rw [← holds'.offer packable]
    exact above lane' (List.mem_filter.mpr ⟨List.mem_range.mpr
      (Nat.lt_of_lt_of_le inside' tile.enough), decide_eq_true ⟨inside', group⟩⟩)

theorem SortedTile.same_state (tile : SortedTile n N compactN depth tokens depths row valid sorted)
    (packable : Packable n N tokens row.parents) (inside : lane < valid) (inside' : lane' < valid)
    (holds : HoldsNode n N depth tokens depths row sorted lane pid)
    (holds' : HoldsNode n N depth tokens depths row sorted lane' pid) :
    (RowMasked N compactN valid sorted row.lps lane' ↔
        RowMasked N compactN valid sorted row.lps lane) ∧
      laneState N compactN valid sorted row.lps lane' =
        laneState N compactN valid sorted row.lps lane := by
  have group := (tile.group_iff_twin packable inside inside' holds holds').mpr
    ⟨holds.at_d, holds.at_d, rfl, rfl⟩
  have offer := (holds'.offer packable).trans (holds.offer packable).symm
  have masked : RowMasked N compactN valid sorted row.lps lane' ↔
      RowMasked N compactN valid sorted row.lps lane := by
    rw [RowMasked, RowMasked, group, offer]
    simp [inside, inside']
  refine ⟨masked, ?_⟩
  simp only [laneState, rowWinnerPid, group, masked]

end tile

section passSpec

variable {n N compactN depth : Nat} {tokens depths : Nat → Nat} {registers : RowRegisters}
  {lane pid : Nat}

/-- The sorted tile of a pass. -/
def passTile (n N compactN depth : Nat) (tokens depths : Nat → Nat) (row : RowTensors) : List Int :=
  sortedCompact n N compactN (depth + 1) tokens depths row

/-- A lane holds the node in the sorted tile of the pass. -/
def InPass (n N compactN depth : Nat) (tokens depths : Nat → Nat) (row : RowTensors)
    (lane pid : Nat) : Prop :=
  lane < nAtD n N (depth + 1) depths row ∧
    HoldsNode n N depth tokens depths row (passTile n N compactN depth tokens depths row) lane pid

/-- The lane's node is struck out in the pass. -/
def StruckLane (n N compactN depth : Nat) (tokens depths : Nat → Nat) (row : RowTensors)
    (lane : Nat) : Prop :=
  RowMasked N compactN (nAtD n N (depth + 1) depths row)
    (passTile n N compactN depth tokens depths row) row.lps lane

/-- A node of the pass keeps its log-probability unless its lane is masked, and has the lane's
state. -/
theorem rowPass_at (packable : Packable n N tokens registers.parents)
    (enough : nAtD n N (depth + 1) depths registers.toRowTensors ≤ compactN)
    (inPass : InPass n N compactN depth tokens depths registers.toRowTensors lane pid) :
    (StruckLane n N compactN depth tokens depths registers.toRowTensors lane →
      (rowPass n N compactN tokens depths (depth + 1) registers).lps pid = .negInfinity) ∧
    (¬StruckLane n N compactN depth tokens depths registers.toRowTensors lane →
      (rowPass n N compactN tokens depths (depth + 1) registers).lps pid = registers.lps pid) ∧
    (rowPass n N compactN tokens depths (depth + 1) registers).nodeState pid =
      laneState N compactN (nAtD n N (depth + 1) depths registers.toRowTensors)
        (passTile n N compactN depth tokens depths registers.toRowTensors) registers.lps lane := by
  obtain ⟨inside, holds⟩ := inPass
  have tile : SortedTile n N compactN depth tokens depths registers.toRowTensors _ _ :=
    sortedTile packable enough
  have index := (holds.unpacked packable).1
  have ranged : lane < compactN := Nat.lt_of_lt_of_le inside enough
  have held {lane' : Nat}
      (inside' : lane' < nAtD n N (depth + 1) depths registers.toRowTensors)
      (index' : sortIdx N (passTile n N compactN depth tokens depths registers.toRowTensors) lane' =
        pid) : HoldsNode n N depth tokens depths registers.toRowTensors
          (passTile n N compactN depth tokens depths registers.toRowTensors) lane' pid := by
    obtain ⟨node, holds'⟩ := tile.holds lane' inside'
    obtain rfl : node = pid := (holds'.unpacked packable).1.symm.trans index'
    exact holds'
  refine ⟨fun struck => ?_, fun kept => ?_, ?_⟩
  · apply store_value
    · exact List.mem_map.mpr ⟨lane, List.mem_filter.mpr
        ⟨List.mem_range.mpr ranged, decide_eq_true struck⟩, by rw [index.symm]; rfl⟩
    · intro entry member _
      obtain ⟨_, _, rfl⟩ := List.mem_map.mp member
      rfl
  · apply store_frame
    intro entry member same
    obtain ⟨lane', listed, rfl⟩ := List.mem_map.mp member
    have masked := of_decide_eq_true (List.mem_filter.mp listed).2
    exact kept ((tile.same_state packable inside masked.1 holds (held masked.1 same)).1.mp masked)
  · apply store_value
    · exact List.mem_map.mpr ⟨lane, List.mem_filter.mpr
        ⟨List.mem_range.mpr ranged, decide_eq_true inside⟩, by rw [index.symm]; rfl⟩
    · intro entry member same
      obtain ⟨lane', listed, rfl⟩ := List.mem_map.mp member
      have inside' := of_decide_eq_true (List.mem_filter.mp listed).2
      exact (tile.same_state packable inside inside' holds (held inside' same)).2

/-- Other nodes keep their log-probability, and their state is blank. -/
theorem rowPass_elsewhere (packable : Packable n N tokens registers.parents)
    (enough : nAtD n N (depth + 1) depths registers.toRowTensors ≤ compactN)
    (elsewhere : ¬IsAtD n (depth + 1) (liveDepths registers.lps depths) pid) :
    (rowPass n N compactN tokens depths (depth + 1) registers).lps pid = registers.lps pid ∧
      (pid < N → (rowPass n N compactN tokens depths (depth + 1) registers).nodeState pid = 0) := by
  have tile : SortedTile n N compactN depth tokens depths registers.toRowTensors _ _ :=
    sortedTile packable enough
  have away {lane' : Nat} (inside' : lane' < nAtD n N (depth + 1) depths registers.toRowTensors)
      (index' : sortIdx N (sortedCompact n N compactN (depth + 1) tokens depths
        registers.toRowTensors) lane' = pid) : False := by
    obtain ⟨node, holds'⟩ := tile.holds lane' inside'
    obtain rfl : node = pid := (holds'.unpacked packable).1.symm.trans index'
    exact elsewhere holds'.at_d
  constructor
  · apply store_frame
    intro entry member same
    obtain ⟨lane', listed, rfl⟩ := List.mem_map.mp member
    exact away (of_decide_eq_true (List.mem_filter.mp listed).2).1 same
  · intro within
    rw [← if_pos (c := pid < N) (t := (0 : Int)) (e := registers.nodeState pid) within]
    apply store_frame
    intro entry member same
    obtain ⟨lane', listed, rfl⟩ := List.mem_map.mp member
    exact away (of_decide_eq_true (List.mem_filter.mp listed).2) same

theorem exists_inPass (packable : Packable n N tokens registers.parents)
    (enough : nAtD n N (depth + 1) depths registers.toRowTensors ≤ compactN)
    (here : IsAtD n (depth + 1) (liveDepths registers.lps depths) pid) :
    ∃ lane, InPass n N compactN depth tokens depths registers.toRowTensors lane pid :=
  (sortedTile packable enough).placed pid here

/-- The top offer among the twins of a node is the winning one of its lane. -/
theorem InPass.topOffer (packable : Packable n N tokens registers.parents)
    (enough : nAtD n N (depth + 1) depths registers.toRowTensors ≤ compactN)
    (inPass : InPass n N compactN depth tokens depths registers.toRowTensors lane pid) :
    ∃ top, TopOffer registers.lps (RowTwin n depth tokens depths registers.toRowTensors pid) top ∧
      (StruckLane n N compactN depth tokens depths registers.toRowTensors lane ↔
        combinedKey (registers.lps pid) pid ≠ top) ∧
      laneState N compactN (nAtD n N (depth + 1) depths registers.toRowTensors)
          (passTile n N compactN depth tokens depths registers.toRowTensors) registers.lps lane =
        (if combinedKey (registers.lps pid) pid ≠ top then 4294967296 else 0) +
          (4294967295 - top % 4294967296) := by
  obtain ⟨inside, holds⟩ := inPass
  have tile : SortedTile n N compactN depth tokens depths registers.toRowTensors
      (nAtD n N (depth + 1) depths registers.toRowTensors)
      (passTile n N compactN depth tokens depths registers.toRowTensors) :=
    sortedTile packable enough
  have struck : StruckLane n N compactN depth tokens depths registers.toRowTensors lane ↔
      combinedKey (registers.lps pid) pid ≠ rowWinner N compactN
        (nAtD n N (depth + 1) depths registers.toRowTensors)
        (passTile n N compactN depth tokens depths registers.toRowTensors) registers.lps
        (rowGroup N (nAtD n N (depth + 1) depths registers.toRowTensors)
          (passTile n N compactN depth tokens depths registers.toRowTensors) lane) := by
    rw [← holds.offer packable]
    exact and_iff_right inside
  refine ⟨_, tile.topOffer packable inside holds, struck, ?_⟩
  exact congrArg (· + _) (if_congr struck rfl rfl)

theorem rowPass_unsigned (packable : Packable n N tokens registers.parents)
    (enough : nAtD n N (depth + 1) depths registers.toRowTensors ≤ compactN)
    (here : IsAtD n (depth + 1) (liveDepths registers.lps depths) pid)
    (unsigned : (registers.lps pid).negative = false) :
    (rowPass n N compactN tokens depths (depth + 1) registers).lps pid = .negInfinity := by
  obtain ⟨lane, inPass⟩ := exists_inPass packable enough here
  obtain ⟨top, topOffer, struck, _⟩ := inPass.topOffer packable enough
  have small := packable.small
  have within := here.2
  have offered : combinedKey (registers.lps pid) pid < 0 :=
    combinedKey_of_not_negative unsigned (by omega)
  have least := topOffer.least
  exact (rowPass_at packable enough inPass).1 (struck.mpr (by omega))

/-- A node of the pass that is not the winner of its group. -/
def Loses (n depth : Nat) (tokens depths : Nat → Nat) (row : RowTensors) (pid : Nat) : Prop :=
  ∃ winner, Winner row.lps (RowTwin n depth tokens depths row pid) winner ∧ pid ≠ winner

theorem combinedKey_ne {lp lp' : Number} {pid winner : Nat} (small : pid < 4294967295)
    (small' : winner < 4294967295) (signed : lp'.negative = true) :
    combinedKey lp pid = combinedKey lp' winner → pid = winner := by
  intro same
  rw [combinedKey_of_negative signed small'] at same
  cases sign : lp.negative with
  | true =>
    rw [combinedKey_of_negative sign small] at same
    omega
  | false =>
    have negative : combinedKey lp pid < 0 := combinedKey_of_not_negative sign small
    omega

theorem turned_low (high : Nat) {winner : Nat} (small : winner < 4294967295) :
    4294967295 - ((high * 4294967296 + (4294967295 - winner) : Nat) : Int) % 4294967296 = winner := by
  omega

theorem Winner.unique {lps : Nat → Number} {grouped : Nat → Prop} {first second : Nat}
    (won : Winner lps grouped first) (won' : Winner lps grouped second) : first = second :=
  Nat.le_antisymm
    (won.earliest second won'.member won'.signed (won'.greatest first won.member won.signed))
    (won'.earliest first won.member won.signed (won.greatest second won'.member won'.signed))

/-- Where every group of the pass has a sign bit, a pass strikes out the losers and moves their
children to the winners. -/
theorem rowPass_merges (packable : Packable n N tokens registers.parents)
    (enough : nAtD n N (depth + 1) depths registers.toRowTensors ≤ compactN)
    (signed : ∀ pid, IsAtD n (depth + 1) (liveDepths registers.lps depths) pid →
      ∃ other, RowTwin n depth tokens depths registers.toRowTensors pid other ∧
        (registers.lps other).negative = true) :
    Merges n (Loses n depth tokens depths registers.toRowTensors)
      (fun pid => Winner registers.lps (RowTwin n depth tokens depths registers.toRowTensors pid))
      registers.tree (rowPass n N compactN tokens depths (depth + 1) registers).tree := by
  have small := packable.small
  have lanes (pid : Nat) (here : IsAtD n (depth + 1) (liveDepths registers.lps depths) pid) :
      ∃ lane, InPass n N compactN depth tokens depths registers.toRowTensors lane pid ∧
        (StruckLane n N compactN depth tokens depths registers.toRowTensors lane ↔
          Loses n depth tokens depths registers.toRowTensors pid) ∧
        ∃ winner : Nat, Winner registers.lps
            (RowTwin n depth tokens depths registers.toRowTensors pid) winner ∧
          laneState N compactN (nAtD n N (depth + 1) depths registers.toRowTensors)
              (passTile n N compactN depth tokens depths registers.toRowTensors) registers.lps lane =
            (if pid ≠ winner then 4294967296 else 0) + winner := by
    obtain ⟨lane, inPass⟩ := exists_inPass packable enough here
    obtain ⟨top, topOffer, struck, state⟩ := inPass.topOffer packable enough
    obtain ⟨other, twin, sign⟩ := signed pid here
    have inside (node : Nat) (twin : RowTwin n depth tokens depths registers.toRowTensors pid node) :
        node < 4294967295 := Nat.lt_of_lt_of_le twin.at_d'.2 small
    obtain ⟨winner, won, offer⟩ := topOffer.winner inside twin sign
    have within := inside winner won.member
    have offered : top = combinedKey (registers.lps winner) winner := by
      rw [offer, combinedKey_of_negative won.signed within]
    have differs : combinedKey (registers.lps pid) pid ≠ top ↔ pid ≠ winner := by
      rw [offered]
      exact not_congr ⟨combinedKey_ne (Nat.lt_of_lt_of_le here.2 small) within won.signed,
        fun same => same ▸ rfl⟩
    refine ⟨lane, inPass, ?_, winner, won, ?_⟩
    · rw [struck, differs]
      constructor
      · exact fun other => ⟨winner, won, other⟩
      · rintro ⟨winner', won', other⟩
        rwa [won.unique won']
    · have turned : 4294967295 - top % 4294967296 = (winner : Int) := by
        rw [offer, turned_low _ within]
      rw [state, turned]
      exact congrArg (· + (winner : Int)) (if_congr differs rfl rfl)
  have kept (pid : Nat) (out : ¬Loses n depth tokens depths registers.toRowTensors pid) :
      (rowPass n N compactN tokens depths (depth + 1) registers).lps pid = registers.lps pid := by
    by_cases here : IsAtD n (depth + 1) (liveDepths registers.lps depths) pid
    · obtain ⟨lane, inPass, struck, _⟩ := lanes pid here
      exact (rowPass_at packable enough inPass).2.1 (mt struck.mp out)
    · exact (rowPass_elsewhere packable enough here).1
  have parents (pid : Nat) (within : pid < n) (parent : Nat)
      (link : registers.parents pid = parent) :
      (rowPass n N compactN tokens depths (depth + 1) registers).parents pid =
        if (rowPass n N compactN tokens depths (depth + 1) registers).nodeState parent / 4294967296 ≠ 0
        then (rowPass n N compactN tokens depths (depth + 1) registers).nodeState parent % 4294967296
        else parent := by
    have read : (rowPass n N compactN tokens depths (depth + 1) registers).parents pid =
        if 0 ≤ registers.parents pid ∧
          (if pid < n then (rowPass n N compactN tokens depths (depth + 1) registers).nodeState
            (registers.parents pid).toNat else 0) / 4294967296 ≠ 0
        then (if pid < n then (rowPass n N compactN tokens depths (depth + 1) registers).nodeState
          (registers.parents pid).toNat else 0) % 4294967296
        else registers.parents pid := rfl
    simp only [if_pos within, link, Int.toNat_natCast, Int.natCast_nonneg, true_and] at read
    exact read
  refine ⟨?_, kept, fun pid _ => rfl, fun pid _ => rfl, ?_, ?_⟩
  · rintro pid ⟨winner, won, other⟩
    obtain ⟨lane, inPass, struck, _⟩ := lanes pid won.member.at_d
    exact (rowPass_at packable enough inPass).1 (struck.mpr ⟨winner, won, other⟩)
  · rintro pid within parent link ⟨winner, won, other⟩
    obtain ⟨lane, inPass, _, winner', won', state⟩ := lanes parent won.member.at_d
    obtain rfl : winner = winner' := won.unique won'
    have inside := won.member.at_d'.2
    refine ⟨winner, won, ?_⟩
    have now := parents pid within parent link
    rw [(rowPass_at packable enough inPass).2.2, state, if_pos other] at now
    have high : (4294967296 + (winner : Int)) / 4294967296 ≠ 0 := by omega
    have low : (4294967296 + (winner : Int)) % 4294967296 = winner := by omega
    rw [if_pos high, low] at now
    exact now
  · intro pid unmoved
    by_cases linked : pid < n ∧ 0 ≤ registers.parents pid
    · obtain ⟨within, below⟩ := linked
      have link : registers.parents pid = (registers.parents pid).toNat :=
        (Int.toNat_of_nonneg below).symm
      have stays : ¬Loses n depth tokens depths registers.toRowTensors (registers.parents pid).toNat :=
        fun out => unmoved ⟨within, _, link, out⟩
      have now := parents pid within _ link
      have covered := packable.covered
      have inside := packable.parent_inside pid within
      rw [if_neg] at now
      · exact now.trans link.symm
      · by_cases here : IsAtD n (depth + 1) (liveDepths registers.lps depths)
            (registers.parents pid).toNat
        · obtain ⟨lane, inPass, _, winner, won, state⟩ := lanes _ here
          have first : (registers.parents pid).toNat = winner := by
            by_contra other
            exact stays ⟨winner, won, other⟩
          rw [(rowPass_at packable enough inPass).2.2, state, if_neg (not_not.mpr first)]
          have small' := won.member.at_d'.2
          omega
        · rw [(rowPass_elsewhere packable enough here).2 (by omega)]
          decide
    · rw [not_and_or] at linked
      show (rowPass n N compactN tokens depths (depth + 1) registers).parents pid =
        registers.parents pid
      rw [rowPass]
      rcases linked with outside | root
      · simp [outside]
      · simp [root]

end passSpec

end SpecBlock.Building
