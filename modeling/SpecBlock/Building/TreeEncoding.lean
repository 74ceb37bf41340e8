import Mathlib.Order.WithBot
import SpecBlock.Building.TreeShape

/-!
# The finalisers encode their tree

`Encodes` says what verification is promised: the depth of every node, a mask that shows a
node itself, its ancestors and the root, and one row for each leaf with the leaf's path and
padding after it, the rows in lexicographic order with padding last.

Both finalisers keep the promise whenever no node lies deeper than the walk is long. The
order in which the programs of a launch store their values makes no difference: programs that
write one buffer write different cells, or the same value.
-/

namespace SpecBlock.Building
open Stores ParentChain

/-- A path as a row of `retrieve_indices`. -/
def pathRow (width : Nat) (path : List Nat) : List Int :=
  path.map Int.ofNat ++ List.replicate (width - path.length) (-1)

/-- The rank of an entry among the entries of a row: padding stands above every node. -/
def entryRank (entry : Int) : WithTop Nat := if 0 ≤ entry then WithTop.some entry.toNat else ⊤

namespace ParentTable

/-- Tensors that encode a tree. -/
structure Encodes (table : ParentTable) (buffers : TreeBuffers) : Prop where
  depths : buffers.treePositionIds.length = table.size ∧ ∀ node < table.size, ∃ depth,
    table.HasDepth node depth ∧ buffers.treePositionIds[node]? = some depth
  mask : buffers.treeMask.length = table.size ∧ ∀ row < table.size, ∃ cells,
    buffers.treeMask[row]? = some cells ∧ cells.length = table.size ∧
      ∀ node < table.size, ∃ visible, cells[node]? = some visible ∧
        (visible = 0 ∨ visible = 1) ∧
        (visible = 1 ↔ node = row ∨ Relation.TransGen (ParentOf table.parents) row node ∨ node = 0)
  rows : ∃ (leaves : List Nat) (pathOf : Nat → List Nat) (width : Nat), leaves.Nodup ∧
    (∀ node, node ∈ leaves ↔ table.IsLeaf node) ∧
    (∀ leaf ∈ leaves, table.Path leaf (pathOf leaf) ∧ (pathOf leaf).length ≤ width) ∧
    buffers.retrieveIndices.Perm (leaves.map (fun leaf => pathRow width (pathOf leaf)))
  covered : ∀ node < table.size, ∃ row ∈ buffers.retrieveIndices, (node : Int) ∈ row
  sorted : buffers.retrieveIndices.Pairwise
    (fun row other => row.map entryRank ≤ other.map entryRank)

/-- No node is deeper than a bound. -/
def Shallow (table : ParentTable) (bound : Nat) : Prop :=
  ∀ node depth, table.HasDepth node depth → depth ≤ bound

variable (table : ParentTable) {node : Nat} {path : List Nat}

/-- The path of a node, empty for a node outside the tree. -/
noncomputable def pathOf (node : Nat) : List Nat :=
  open Classical in if known : ∃ path, table.Path node path then known.choose else []

theorem pathOf_path (inside : node < table.size) : table.Path node (table.pathOf node) := by
  have known := table.exists_path inside
  rw [pathOf, dif_pos known]
  exact known.choose_spec

theorem Shallow.length_le {table : ParentTable} {bound : Nat} (shallow : table.Shallow bound)
    (rooted : table.Path node path) : path.length ≤ bound + 1 := by
  have positive : 0 < path.length := rooted.length_pos
  have depth := shallow node (path.length - 1) ⟨path, rooted, by omega⟩
  omega

theorem mem_leavesOf : node ∈ leavesOf (parentTensor table.parents) ↔ table.IsLeaf node := by
  have marked : node ∈ (parentTensor table.parents).tail ↔
      ∃ below, ParentOf table.parents below node := by
    rw [List.mem_iff_getElem?]
    constructor
    · rintro ⟨index, read⟩
      exact ⟨index + 1, table.parentOf_iff.mpr ⟨Nat.succ_ne_zero index, by rwa [List.getElem?_tail] at read⟩⟩
    · rintro ⟨below, link⟩
      obtain ⟨index, parent, rfl, -⟩ := id link
      exact ⟨index, by rw [List.getElem?_tail]; exact (table.parentOf_iff.mp link).2⟩
  rw [leavesOf, List.mem_filter, List.mem_range, parentTensor_length, Bool.not_eq_true',
    ← Bool.not_eq_true, List.contains_iff_mem, marked, not_exists]
  exact Iff.rfl

section launches

variable {maxDepth : Nat}

/-- Every outcome of the depth launch holds the depth of every node. -/
theorem depth_outcome {depth : Nat → Nat} (shallow : table.Shallow maxDepth)
    (outcome : Outcome (fun _ => 0) ((List.range table.size).zip
      (((List.range table.size).map (treeDepthMaskKernel (parentTensor table.parents) table.size
        maxDepth)).map DepthWalk.depth)) depth)
    (inside : node < table.size) (rooted : table.Path node path) : depth node = path.length - 1 := by
  have stored := outcome.zip_eq List.nodup_range (by simp)
  have read := congrArg (fun values => values[node]?) stored
  simp only [List.getElem?_map, List.getElem?_range inside, Option.map_some, Option.some_inj] at read
  rw [read]
  exact table.depthWalk_depth rooted table.size maxDepth (shallow.length_le rooted)

/-- Every outcome of the mask launch marks a node's path and nothing else in its row. -/
theorem mask_outcome {mask : Nat → Nat} (shallow : table.Shallow maxDepth)
    (outcome : Outcome (fun _ => 0) (((List.range table.size).map
      (treeDepthMaskKernel (parentTensor table.parents) table.size maxDepth)).flatMap
        DepthWalk.marked) mask)
    (row : Nat) (rowInside : row < table.size) (inside : node < table.size)
    (rooted : table.Path row path) :
    mask (row * table.size + node) = if node ∈ path then 1 else 0 := by
  have stores : ∀ entry : Nat × Nat, entry ∈ ((List.range table.size).map
      (treeDepthMaskKernel (parentTensor table.parents) table.size maxDepth)).flatMap
        DepthWalk.marked ↔ ∃ pid < table.size, ∃ visited ∈ table.pathOf pid,
          entry = (pid * table.size + visited, 1) := by
    intro entry
    rw [List.flatMap_map, List.mem_flatMap]
    constructor
    · rintro ⟨pid, member, entryMember⟩
      have pidInside := List.mem_range.mp member
      have pidRooted := table.pathOf_path pidInside
      exact ⟨pid, pidInside, (table.depthWalk_marked pidRooted _ _
        (shallow.length_le pidRooted) entry).mp entryMember⟩
    · rintro ⟨pid, pidInside, marked⟩
      have pidRooted := table.pathOf_path pidInside
      exact ⟨pid, List.mem_range.mpr pidInside, (table.depthWalk_marked pidRooted _ _
        (shallow.length_le pidRooted) entry).mpr marked⟩
  have pathSame : path = table.pathOf row :=
    rooted.unique table.rooted (table.pathOf_path rowInside)
  by_cases onPath : node ∈ path
  · rw [if_pos onPath]
    apply outcome.agreed ((stores _).mpr ⟨row, rowInside, node, pathSame ▸ onPath, rfl⟩)
    intro entry member here
    obtain ⟨pid, -, visited, -, rfl⟩ := (stores entry).mp member
    rfl
  · rw [if_neg onPath]
    apply outcome.frame
    intro entry member here
    obtain ⟨pid, pidInside, visited, visitedMember, rfl⟩ := (stores entry).mp member
    have visitedInside := table.path_inside (table.pathOf_path pidInside) visitedMember pidInside
    obtain ⟨rfl, rfl⟩ := address_inj visitedInside inside here
    exact onPath (pathSame ▸ visitedMember)

/-- The path program of a leaf writes the leaf's path into the leaf's row. -/
theorem retrieve_stores (depth : Nat → Nat) (leaves : List Nat) (rowDepth lid : Nat)
    (within : lid < leaves.length) (rooted : table.Path (leaves.getD lid 0) path)
    (measured : depth (leaves.getD lid 0) = path.length - 1) (enough : path.length ≤ maxDepth + 1)
    (entry : Nat × Int) :
    entry ∈ treeRetrieveKernel (parentTensor table.parents) depth leaves rowDepth maxDepth lid ↔
      ∃ column < path.length,
        entry = (lid * (rowDepth + 1) + column, ((path.getD column 0 : Nat) : Int)) := by
  have positive : 0 < path.length := rooted.length_pos
  unfold treeRetrieveKernel
  rw [if_neg (by omega)]
  simp only [measured, table.retrieveWalk_turns rooted, List.mem_map, List.mem_range]
  constructor
  · rintro ⟨turn, -, rfl⟩
    exact ⟨path.length - 1 - turn, by omega, rfl⟩
  · rintro ⟨column, inside, rfl⟩
    refine ⟨path.length - 1 - column, by omega, ?_⟩
    rw [show path.length - 1 - (path.length - 1 - column) = column by omega]

/-- Every outcome of the path launch holds a leaf's path and padding in the leaf's row. -/
theorem retrieve_outcome {depth : Nat → Nat} {ri : Nat → Int} {rowDepth : Nat}
    (shallow : table.Shallow maxDepth)
    (measured : ∀ node < table.size, depth node = (table.pathOf node).length - 1)
    (wide : ∀ node < table.size, depth node ≤ rowDepth)
    (outcome : Outcome (fun _ => -1)
      ((List.range (leavesOf (parentTensor table.parents)).length).flatMap
        (treeRetrieveKernel (parentTensor table.parents) depth
          (leavesOf (parentTensor table.parents)) rowDepth maxDepth)) ri) :
    view (leavesOf (parentTensor table.parents)).length (rowDepth + 1) ri =
      (leavesOf (parentTensor table.parents)).map
        (fun leaf => pathRow (rowDepth + 1) (table.pathOf leaf)) := by
  generalize leavesSame : leavesOf (parentTensor table.parents) = leaves at outcome ⊢
  have leafInside : ∀ lid < leaves.length, leaves.getD lid 0 < table.size := by
    intro lid within
    rw [List.getD_eq_getElem _ _ within]
    have member : leaves.get ⟨lid, within⟩ ∈ leavesOf (parentTensor table.parents) := by
      rw [leavesSame]
      exact List.get_mem leaves _
    exact (table.mem_leavesOf.mp member).1
  have short : ∀ lid < leaves.length, (table.pathOf (leaves.getD lid 0)).length ≤ rowDepth + 1 := by
    intro lid within
    have bound := wide _ (leafInside lid within)
    rw [measured _ (leafInside lid within)] at bound
    omega
  have stores := fun (lid : Nat) (within : lid < leaves.length) =>
    table.retrieve_stores depth leaves rowDepth lid within
      (table.pathOf_path (leafInside lid within)) (measured _ (leafInside lid within))
      (shallow.length_le (table.pathOf_path (leafInside lid within)))
  apply List.ext_getElem (by simp [view])
  intro lid low high
  have within : lid < leaves.length := by simpa using high
  apply List.ext_getElem
  · have bound := short lid within
    rw [List.getD_eq_getElem _ _ within] at bound
    simp only [view, pathRow, List.getElem_map, List.length_map, List.length_range,
      List.length_append, List.length_replicate]
    omega
  intro column lowColumn highColumn
  have columnInside : column < rowDepth + 1 := by simpa [view] using lowColumn
  have cell : ri (lid * (rowDepth + 1) + column) =
      if column < (table.pathOf (leaves.getD lid 0)).length
        then (((table.pathOf (leaves.getD lid 0)).getD column 0 : Nat) : Int) else -1 := by
    by_cases onPath : column < (table.pathOf (leaves.getD lid 0)).length
    · rw [if_pos onPath]
      apply outcome.agreed (List.mem_flatMap.mpr
        ⟨lid, List.mem_range.mpr within, (stores lid within _).mpr ⟨column, onPath, rfl⟩⟩)
      intro entry member here
      obtain ⟨other, otherMember, stored⟩ := List.mem_flatMap.mp member
      have otherWithin := List.mem_range.mp otherMember
      obtain ⟨otherColumn, otherOn, rfl⟩ := (stores other otherWithin entry).mp stored
      have otherInside := Nat.lt_of_lt_of_le otherOn (short other otherWithin)
      obtain ⟨rfl, rfl⟩ := address_inj otherInside columnInside here
      rfl
    · rw [if_neg onPath]
      apply outcome.frame
      intro entry member here
      obtain ⟨other, otherMember, stored⟩ := List.mem_flatMap.mp member
      have otherWithin := List.mem_range.mp otherMember
      obtain ⟨otherColumn, otherOn, rfl⟩ := (stores other otherWithin entry).mp stored
      have otherInside := Nat.lt_of_lt_of_le otherOn (short other otherWithin)
      obtain ⟨rfl, rfl⟩ := address_inj otherInside columnInside here
      exact onPath otherOn
  simp only [view, pathRow, List.getElem_map, List.getElem_range, cell, List.getD_eq_getElem _ _ within]
  by_cases onPath : column < (table.pathOf leaves[lid]).length
  · rw [if_pos onPath, List.getElem_append_left (by simpa using onPath), List.getElem_map,
      List.getD_eq_getElem _ _ onPath]
    rfl
  · rw [if_neg onPath, List.getElem_append_right (by simpa using onPath), List.getElem_replicate]

end launches

end ParentTable

/-- Mapping two rows by a function that reflects a smaller or an equal entry keeps their order. -/
theorem map_le_map {α β γ : Type} [LinearOrder β] [LinearOrder γ] (key : α → β) (rank : α → γ)
    (row other : List α)
    (smaller : ∀ x ∈ row, ∀ y ∈ other, rank y < rank x → key y < key x)
    (equal : ∀ x ∈ row, ∀ y ∈ other, rank y = rank x → key y = key x)
    (ordered : row.map key ≤ other.map key) : row.map rank ≤ other.map rank := by
  have reflects : other.map rank < row.map rank → other.map key < row.map key := by
    clear ordered
    induction row generalizing other with
    | nil => intro below; exact absurd below (List.not_lt_nil _)
    | cons x row ih =>
      cases other with
      | nil => intro below; exact List.nil_lt_cons _ _
      | cons y other =>
        intro below
        rw [List.map_cons, List.map_cons, List.cons_lt_cons_iff] at below ⊢
        rcases below with less | ⟨same, rest⟩
        · exact .inl (smaller x List.mem_cons_self y List.mem_cons_self less)
        · refine .inr ⟨equal x List.mem_cons_self y List.mem_cons_self same, ?_⟩
          exact ih other
            (fun a member b memberOther => smaller a (List.mem_cons_of_mem _ member) b
              (List.mem_cons_of_mem _ memberOther))
            (fun a member b memberOther => equal a (List.mem_cons_of_mem _ member) b
              (List.mem_cons_of_mem _ memberOther)) rest
  exact le_of_not_gt (fun below => absurd (reflects below) (not_lt.mpr ordered))

theorem sortRows_perm (maxitem : Nat) (rows : List (List Int)) : (sortRows maxitem rows).Perm rows :=
  List.mergeSort_perm rows _

/-- Sorted rows are in lexicographic order with padding last, when every node is below the
number that stands for padding. -/
theorem sortRows_sorted (maxitem : Nat) (rows : List (List Int))
    (bounded : ∀ row ∈ rows, ∀ entry ∈ row, entry < maxitem) :
    (sortRows maxitem rows).Pairwise (fun row other => row.map entryRank ≤ other.map entryRank) := by
  have byKey : (sortRows maxitem rows).Pairwise
      (fun row other => decide (rowKey maxitem row ≤ rowKey maxitem other) = true) := by
    unfold sortRows
    apply List.pairwise_mergeSort
    · intro row other last first second
      exact decide_eq_true (le_trans (of_decide_eq_true first) (of_decide_eq_true second))
    · intro row other
      simpa using le_total (rowKey maxitem row) (rowKey maxitem other)
  apply byKey.imp_of_mem
  intro row other rowMember otherMember ordered
  have rowBound := bounded row ((sortRows_perm maxitem rows).mem_iff.mp rowMember)
  have otherBound := bounded other ((sortRows_perm maxitem rows).mem_iff.mp otherMember)
  apply map_le_map (fun entry : Int => if 0 ≤ entry then entry else (maxitem : Int)) entryRank row
    other _ _ (of_decide_eq_true ordered)
  · intro x xMember y yMember less
    have xBound := rowBound x xMember
    have yBound := otherBound y yMember
    unfold entryRank at less
    by_cases yNode : 0 ≤ y
    · by_cases xNode : 0 ≤ x
      · simp only [yNode, xNode, if_true, WithTop.coe_lt_coe] at less ⊢
        omega
      · simp only [yNode, xNode, if_true, if_false]
        exact yBound
    · simp [yNode] at less
  · intro x xMember y yMember same
    unfold entryRank at same
    by_cases yNode : 0 ≤ y
    · by_cases xNode : 0 ≤ x
      · simp only [yNode, xNode, if_true, WithTop.coe_inj] at same ⊢
        omega
      · simp [yNode, xNode] at same
    · by_cases xNode : 0 ≤ x
      · simp [yNode, xNode] at same
      · simp [yNode, xNode]

/-- The entries of a path's row are nodes of the path or padding. -/
theorem mem_pathRow {width : Nat} {path : List Nat} {entry : Int} (member : entry ∈ pathRow width path) :
    entry = -1 ∨ ∃ node ∈ path, entry = (node : Int) := by
  rcases List.mem_append.mp member with onPath | padding
  · obtain ⟨node, nodeMember, rfl⟩ := List.mem_map.mp onPath
    exact .inr ⟨node, nodeMember, rfl⟩
  · exact .inl (List.eq_of_mem_replicate padding)

/-- A finaliser whose rows are wide enough for the depths encodes its tree. -/
theorem finalized_encodes (table : ParentTable) (tokens : List Nat) (sampleToken maxDepth : Nat)
    (rowDepth : List Nat → Nat) (buffers : TreeBuffers) (shallow : table.Shallow maxDepth)
    (wide : ∀ depths : List Nat, (∀ depth ∈ depths, depth ≤ maxDepth) →
      ∀ depth ∈ depths, depth ≤ rowDepth depths)
    (finalized : Finalized tokens table.parents sampleToken maxDepth rowDepth buffers) :
    table.Encodes buffers := by
  unfold Finalized at finalized
  simp only [table.parentTensor_length] at finalized
  obtain ⟨depth, mask, ri, maskOutcome, depthOutcome, riOutcome, rfl⟩ := finalized
  have measured : ∀ node < table.size, depth node = (table.pathOf node).length - 1 :=
    fun node inside => table.depth_outcome shallow depthOutcome inside (table.pathOf_path inside)
  have bounded : ∀ node < table.size, depth node ≤ maxDepth := by
    intro node inside
    have length := shallow.length_le (table.pathOf_path inside)
    rw [measured node inside]
    omega
  generalize widest : rowDepth ((List.range table.size).map depth) = greatest at riOutcome ⊢
  have fits : ∀ node < table.size, depth node ≤ greatest := by
    intro node inside
    rw [← widest]
    apply wide _ _ _ (List.mem_map.mpr ⟨node, List.mem_range.mpr inside, rfl⟩)
    intro other member
    obtain ⟨source, sourceMember, rfl⟩ := List.mem_map.mp member
    exact bounded source (List.mem_range.mp sourceMember)
  have retrieved := table.retrieve_outcome shallow measured fits riOutcome
  have leafRooted : ∀ leaf ∈ leavesOf (parentTensor table.parents),
      table.Path leaf (table.pathOf leaf) ∧ leaf < table.size := by
    intro leaf member
    have inside := (table.mem_leavesOf.mp member).1
    exact ⟨table.pathOf_path inside, inside⟩
  constructor
  · refine ⟨by simp, ?_⟩
    intro node inside
    have rooted := table.pathOf_path inside
    have positive : 0 < (table.pathOf node).length := rooted.length_pos
    refine ⟨depth node, (table.hasDepth_iff rooted _).mpr ?_, by simp [inside]⟩
    rw [measured node inside]
    omega
  · refine ⟨by simp [view], ?_⟩
    intro row rowInside
    refine ⟨_, by simp [view, rowInside]; rfl, by simp, ?_⟩
    intro node inside
    have rooted := table.pathOf_path rowInside
    have cell := table.mask_outcome shallow maskOutcome row rowInside inside rooted
    refine ⟨mask (row * table.size + node), by simp [inside], ?_, ?_⟩
    · rw [cell]
      split <;> simp
    · have shown : mask (row * table.size + node) = 1 ↔ node ∈ table.pathOf row := by
        rw [cell]
        split <;> simp [*]
      rw [shown]
      constructor
      · intro member
        rcases (Relation.reflTransGen_iff_eq_or_transGen.mp (rooted.mem_ancestor node member))
          with same | above
        · exact .inl same
        · exact .inr (.inl above)
      · rintro (rfl | above | rfl)
        · exact rooted.ancestor_mem table.rooted _ .refl
        · exact rooted.ancestor_mem table.rooted _ above.to_reflTransGen
        · exact List.mem_of_getElem? rooted.first
  · refine ⟨leavesOf (parentTensor table.parents), table.pathOf, greatest + 1,
      List.nodup_range.filter _, fun node => table.mem_leavesOf, ?_, ?_⟩
    · intro leaf member
      obtain ⟨rooted, inside⟩ := leafRooted leaf member
      have deep := fits leaf inside
      rw [measured leaf inside] at deep
      exact ⟨rooted, by omega⟩
    · rw [← retrieved]
      exact sortRows_perm _ _
  · intro node inside
    obtain ⟨leaf, leafInside, bottom, chain⟩ :=
      exists_leaf (Set.finite_lt_nat table.size) table.acyclic node inside
    have isLeaf : table.IsLeaf leaf :=
      ⟨leafInside, fun below link => bottom below (table.parentOf_inside link).1 link⟩
    have onPath : node ∈ table.pathOf leaf :=
      (table.pathOf_path leafInside).ancestor_mem table.rooted node chain
    refine ⟨pathRow (greatest + 1) (table.pathOf leaf), ?_, ?_⟩
    · rw [(sortRows_perm _ _).mem_iff, retrieved]
      exact List.mem_map.mpr ⟨leaf, table.mem_leavesOf.mpr isLeaf, rfl⟩
    · exact List.mem_append_left _ (List.mem_map.mpr ⟨node, onPath, rfl⟩)
  · apply sortRows_sorted
    intro row rowMember entry entryMember
    rw [retrieved] at rowMember
    obtain ⟨leaf, leafMember, rfl⟩ := List.mem_map.mp rowMember
    obtain ⟨rooted, inside⟩ := leafRooted leaf leafMember
    rcases mem_pathRow entryMember with rfl | ⟨node, onPath, rfl⟩
    · omega
    · have nodeInside := table.path_inside rooted onPath inside
      omega

/-- The launches of a finaliser have outcomes. -/
theorem exists_finalized (tokens : List Nat) (tnParents : List Int) (sampleToken maxDepth : Nat)
    (rowDepth : List Nat → Nat) :
    ∃ buffers, Finalized tokens tnParents sampleToken maxDepth rowDepth buffers :=
  ⟨_, _, _, _, .listed _ _, .listed _ _, .listed _ _, rfl⟩

/-- Both finalisers encode the tree of every acyclic table of parents that is no deeper than
their walk, in whatever order the programs run. -/
theorem tree_buffers_encode (table : ParentTable) (nNodes : Nat) (tnTokens : List Nat)
    (tnParents : List Int) (sampleToken : Nat) (given : tnParents.take nNodes = table.parents) :
    (table.Shallow maxTreeDepth → ∀ buffers,
      BuildTreeBuffersTriton nNodes tnTokens tnParents sampleToken buffers →
        table.Encodes buffers) ∧
    (∀ maxDepth, table.Shallow maxDepth → ∀ buffers,
      FinalizeTreeGpu nNodes tnTokens tnParents sampleToken maxDepth buffers →
        table.Encodes buffers) := by
  constructor
  · intro shallow buffers built
    unfold BuildTreeBuffersTriton at built
    rw [given] at built
    exact finalized_encodes table _ _ _ _ buffers shallow
      (fun depths _ depth member => Batch.le_maximum depths depth member) built
  · intro maxDepth shallow buffers built
    unfold FinalizeTreeGpu at built
    rw [given] at built
    exact finalized_encodes table _ _ _ _ buffers shallow
      (fun _ bounded depth member => bounded depth member) built

/-- The first node hangs from the root, the third from the first and the second from the third. -/
def turnedParents : List Int := [-1, 2, 0]

/-- Links between these nodes lead to shallower nodes. -/
theorem turnedParents_decreasing (node above : Nat) (link : ParentOf turnedParents node above) :
    [0, 1, 3, 2].getD above 0 < [0, 1, 3, 2].getD node 0 := by
  obtain ⟨index, parent, rfl, read, rfl⟩ := link
  match index, read with
  | 0, read =>
    obtain rfl : -1 = parent := by simpa [turnedParents] using read
    decide
  | 1, read =>
    obtain rfl : 2 = parent := by simpa [turnedParents] using read
    decide
  | 2, read =>
    obtain rfl : 0 = parent := by simpa [turnedParents] using read
    decide
  | index + 3, read => simp [turnedParents] at read

/-- These nodes as a tree. -/
def turnedTable : ParentTable where
  parents := turnedParents
  inside := by decide
  acyclic := acyclic_of_decreasing _ turnedParents_decreasing

/-- Three nodes whose indices follow no order are encoded. -/
theorem tree_buffers_encode_turned : ∃ buffers,
    BuildTreeBuffersTriton 3 [5, 6, 7] turnedParents 4 buffers ∧ turnedTable.Encodes buffers := by
  obtain ⟨buffers, built⟩ := exists_finalized [5, 6, 7] turnedParents 4 maxTreeDepth Batch.maximum
  have shallow : turnedTable.Shallow maxTreeDepth := by
    rintro node depth ⟨path, rooted, length⟩
    have bound := rooted.length_le _ turnedParents_decreasing
    have small : [0, 1, 3, 2].getD node 0 ≤ 3 := by
      match node with
      | 0 | 1 | 2 | 3 => decide
      | node + 4 => simp
    unfold maxTreeDepth
    omega
  exact ⟨buffers, built,
    (tree_buffers_encode turnedTable 3 [5, 6, 7] turnedParents 4 rfl).1 shallow buffers built⟩

end SpecBlock.Building
