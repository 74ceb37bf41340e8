import SpecBlock.Building.TreeEncoding

/-!
# The buffers of a single chain

When every node's parent is the node before it, the tree is one path. Its buffers are known
outright: the positions count up, the mask is lower triangular, and the only path is all nodes in
order. `_validate_strict_linear_tree` checks for exactly that.

The walks of the finaliser are twenty-one nodes long. On a chain of more than twenty nodes the walk
of the twenty-first one ends below the root, so that its row of the mask lacks the root.
-/

namespace SpecBlock.Building
open Stores ParentChain

/-- The parents of a chain. -/
def chainParents (n : Nat) : List Int := (List.range n).map (fun index : Nat => (index : Int) - 1)

theorem chainParents_add (n more : Nat) : chainParents (n + more) =
    chainParents n ++ (List.range more).map (fun index => ((n + index : Nat) : Int) - 1) := by
  rw [chainParents, List.range_add, List.map_append, List.map_map]
  rfl

/-- The lower triangular mask. -/
def tril (width : Nat) : List (List Nat) :=
  (List.range width).map (fun row => (List.range width).map (fun column =>
    if column ≤ row then 1 else 0))

/-- `_validate_strict_linear_tree`: whether it returns. -/
def validateStrictLinearTree (strictLinearNodes : Nat) (buffers : TreeBuffers) : Bool :=
  let expectedWidth := strictLinearNodes + 1
  let width := buffers.treeTokens.length
  let retrievePathOk := match buffers.retrieveIndices with
    | [retrieveRow] => decide (width ≤ retrieveRow.length) &&
        (retrieveRow.take width == (List.range width).map Int.ofNat &&
          (retrieveRow.drop width).all (fun entry => entry == -1))
    | _ => false
  width == expectedWidth && retrievePathOk && buffers.treeMask == tril width &&
    buffers.treePositionIds == List.range width

theorem parentOf_chain {n node above : Nat} :
    ParentOf (chainParents n) node above ↔ node = above + 1 ∧ node ≤ n := by
  constructor
  · rintro ⟨index, parent, rfl, read, rfl⟩
    rw [chainParents, List.getElem?_map, Option.map_eq_some_iff] at read
    obtain ⟨place, listed, rfl⟩ := read
    obtain ⟨inside, rfl⟩ := List.getElem?_eq_some_iff.mp listed
    rw [List.length_range] at inside
    rw [List.getElem_range]
    split <;> omega
  · rintro ⟨rfl, inside⟩
    refine ⟨above, (above : Int) - 1, rfl, ?_, ?_⟩
    · rw [chainParents, List.getElem?_map, List.getElem?_range (by omega), Option.map_some]
    · split <;> omega

/-- A chain as a tree. -/
def linearTable (n : Nat) : ParentTable where
  parents := chainParents n
  inside := by
    intro parent member
    obtain ⟨index, listed, rfl⟩ := List.mem_map.mp member
    have low := List.mem_range.mp listed
    rw [chainParents, List.length_map, List.length_range]
    omega
  acyclic := acyclic_of_decreasing id (fun node above link => by
    have next := (parentOf_chain.mp link).1
    exact next ▸ Nat.lt_succ_self above)

namespace linearTable

variable {n node : Nat}

@[simp] theorem size_eq (n : Nat) : (linearTable n).size = n + 1 := by
  simp [ParentTable.size, linearTable, chainParents]

theorem path (inside : node ≤ n) : (linearTable n).Path node (List.range (node + 1)) := by
  induction node with
  | zero => exact .root
  | succ node ih =>
    rw [List.range_succ]
    exact .child (parentOf_chain.mpr ⟨rfl, inside⟩) (ih (Nat.le_of_succ_le inside))

theorem inside_of_path {path : List Nat} (rooted : (linearTable n).Path node path) : node ≤ n := by
  cases rooted with
  | root => exact Nat.zero_le n
  | child link rest => exact (parentOf_chain.mp link).2

theorem depth_eq {depth : Nat} (deep : (linearTable n).HasDepth node depth) : depth = node := by
  obtain ⟨path, rooted, length⟩ := deep
  have same := rooted.unique (linearTable n).rooted (linearTable.path (inside_of_path rooted))
  rw [same, List.length_range] at length
  omega

theorem shallow {bound : Nat} (fits : n ≤ bound) : (linearTable n).Shallow bound := by
  intro node depth deep
  obtain ⟨path, rooted, -⟩ := id deep
  have inside := inside_of_path rooted
  rw [depth_eq deep]
  omega

theorem ancestor_iff {above : Nat} (inside : node ≤ n) :
    Relation.TransGen (ParentOf (linearTable n).parents) node above ↔ above < node := by
  constructor
  · intro ancestor
    induction ancestor with
    | single link =>
      have next := (parentOf_chain.mp link).1
      omega
    | tail _ link ih =>
      have next := (parentOf_chain.mp link).1
      omega
  · intro earlier
    induction node with
    | zero => exact absurd earlier (Nat.not_lt_zero _)
    | succ node ih =>
      have link : ParentOf (linearTable n).parents (node + 1) node :=
        parentOf_chain.mpr ⟨rfl, inside⟩
      rcases Nat.lt_succ_iff_lt_or_eq.mp earlier with before | rfl
      · exact Relation.TransGen.head link (ih (Nat.le_of_succ_le inside) before)
      · exact .single link

theorem isLeaf_iff : (linearTable n).IsLeaf node ↔ node = n := by
  constructor
  · rintro ⟨inside, bare⟩
    rw [size_eq] at inside
    by_contra other
    exact bare (node + 1) (parentOf_chain.mpr ⟨rfl, by omega⟩)
  · rintro rfl
    refine ⟨by simp, fun below link => ?_⟩
    have linked := parentOf_chain.mp link
    omega

variable {buffers : TreeBuffers}

theorem positions (encodes : (linearTable n).Encodes buffers) :
    buffers.treePositionIds = List.range (n + 1) := by
  obtain ⟨length, depths⟩ := encodes.depths
  rw [size_eq] at length depths
  apply List.ext_getElem?
  intro node
  rcases Nat.lt_or_ge node (n + 1) with inside | outside
  · obtain ⟨depth, deep, read⟩ := depths node inside
    rw [read, List.getElem?_range inside, depth_eq deep]
  · rw [List.getElem?_eq_none (by omega), List.getElem?_eq_none (by simpa using outside)]

theorem mask (encodes : (linearTable n).Encodes buffers) : buffers.treeMask = tril (n + 1) := by
  obtain ⟨length, masked⟩ := encodes.mask
  rw [size_eq] at length masked
  apply List.ext_getElem?
  intro row
  rcases Nat.lt_or_ge row (n + 1) with inside | outside
  · obtain ⟨cells, read, wide, visibles⟩ := masked row inside
    rw [read, tril, List.getElem?_map, List.getElem?_range inside, Option.map_some, Option.some_inj]
    apply List.ext_getElem?
    intro node
    rcases Nat.lt_or_ge node (n + 1) with within | beyond
    · obtain ⟨visible, seen, binary, shown⟩ := visibles node within
      rw [seen, List.getElem?_map, List.getElem?_range within, Option.map_some, Option.some_inj]
      rw [ancestor_iff (by omega)] at shown
      split
      · exact shown.mpr (by omega)
      · rcases binary with hidden | visibleOne
        · exact hidden
        · have up := shown.mp visibleOne
          omega
    · rw [List.getElem?_eq_none (by omega), List.getElem?_eq_none (by simpa using beyond)]
  · rw [List.getElem?_eq_none (by omega), List.getElem?_eq_none (by simpa [tril] using outside)]

/-- The only row of a chain's paths is all its nodes, and padding. -/
theorem retrieve (encodes : (linearTable n).Encodes buffers) :
    ∃ width, buffers.retrieveIndices = [pathRow width (List.range (n + 1))] := by
  obtain ⟨leaves, pathOf, width, distinct, listed, rooted, rows⟩ := encodes.rows
  have only : leaves = [n] := by
    refine List.perm_singleton.mp ?_
    refine (List.perm_ext_iff_of_nodup distinct (List.nodup_singleton n)).mpr (fun node => ?_)
    rw [listed, isLeaf_iff, List.mem_singleton]
  subst only
  have same : pathOf n = List.range (n + 1) :=
    (rooted n (List.mem_singleton_self n)).1.unique (linearTable n).rooted (path (Nat.le_refl n))
  refine ⟨width, ?_⟩
  rw [← same]
  exact List.perm_singleton.mp rows

theorem validates (encodes : (linearTable n).Encodes buffers)
    (width : buffers.treeTokens.length = n + 1) : validateStrictLinearTree n buffers = true := by
  obtain ⟨columns, rows⟩ := retrieve encodes
  have nodes : ((List.range (n + 1)).map Int.ofNat).length = n + 1 := by simp
  simp only [validateStrictLinearTree, width, rows, mask encodes, positions encodes, pathRow,
    List.take_left' nodes, List.drop_left' nodes]
  simp

/-- The walk from a node of a chain marks the twenty nodes before it at most. -/
theorem marked_iff (inside : node ≤ n) (maxDepth : Nat) (entry : Nat × Nat) :
    entry ∈ (treeDepthMaskKernel (parentTensor (chainParents n)) (n + 1) maxDepth node).marked ↔
      ∃ turn ≤ maxDepth, entry = (node * (n + 1) + (node - turn), 1) := by
  have walked := (linearTable n).depthWalk_turns (path inside) (n + 1) (maxDepth + 1)
  rw [treeDepthMaskKernel]
  have marks := congrArg DepthWalk.marked walked
  simp only [List.length_range, Nat.add_sub_cancel] at marks
  rw [show parentTensor (chainParents n) = parentTensor (linearTable n).parents from rfl, marks,
    List.mem_map]
  have read : ∀ turn, (List.range (node + 1)).getD (node - turn) 0 = node - turn := by
    intro turn
    rw [List.getD_eq_getElem?_getD, List.getElem?_range (by omega), Option.getD_some]
  constructor
  · rintro ⟨turn, listed, rfl⟩
    exact ⟨turn, Nat.le_of_lt_succ (List.mem_range.mp listed), by rw [read]⟩
  · rintro ⟨turn, few, rfl⟩
    exact ⟨turn, List.mem_range.mpr (Nat.lt_succ_of_le few), by rw [read]⟩

/-- The buffers of a chain longer than the walk fail the check. -/
theorem rejects (strictLinearNodes : Nat) {tokens : List Nat} {sampleToken maxDepth : Nat}
    {rowDepth : List Nat → Nat} (long : maxDepth < n)
    (finalized : Finalized tokens (chainParents n) sampleToken maxDepth rowDepth buffers)
    (width : buffers.treeTokens.length = n + 1) :
    validateStrictLinearTree strictLinearNodes buffers = false := by
  have tensor : (parentTensor (chainParents n)).length = n + 1 := by
    have size := (linearTable n).parentTensor_length
    rwa [size_eq] at size
  unfold Finalized at finalized
  simp only [tensor] at finalized
  obtain ⟨depth, mask, ri, maskOutcome, -, -, same⟩ := finalized
  have hidden : mask ((maxDepth + 1) * (n + 1) + 0) = 0 := by
    refine maskOutcome.frame (fun entry member here => ?_)
    rw [List.flatMap_map, List.mem_flatMap] at member
    obtain ⟨pid, pidListed, marked⟩ := member
    have pidInside := List.mem_range.mp pidListed
    obtain ⟨turn, few, rfl⟩ := (marked_iff (by omega) maxDepth entry).mp marked
    obtain ⟨rfl, empty⟩ := address_inj (by omega) (Nat.succ_pos n) here
    omega
  by_contra passed
  have checked : buffers.treeMask = tril (n + 1) := by
    rw [Bool.not_eq_false, validateStrictLinearTree] at passed
    simp only [width, Bool.and_eq_true, beq_iff_eq] at passed
    exact passed.1.2
  have shown : (view (n + 1) (n + 1) mask)[maxDepth + 1]? = (tril (n + 1))[maxDepth + 1]? := by
    rw [← checked, same]
  rw [view, tril, List.getElem?_map, List.getElem?_map, List.getElem?_range (by omega),
    Option.map_some, Option.map_some, Option.some_inj] at shown
  have cell := congrArg (fun cells => cells[0]?) shown
  simp only [List.getElem?_map, List.getElem?_range (Nat.succ_pos n), Option.map_some,
    Option.some_inj, hidden, Nat.zero_le, if_true] at cell
  exact absurd cell Nat.zero_ne_one

end linearTable

end SpecBlock.Building
