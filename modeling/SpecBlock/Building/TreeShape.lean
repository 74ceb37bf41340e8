import Mathlib.Data.List.GetD
import SpecBlock.Foundation.ParentChain
import SpecBlock.Building.TreeBuffers

/-!
# What the tree buffers encode

An acyclic table of parents is a tree: every node has one path from the root, its depth is
the number of links on it, and every node lies on the path of a leaf. The indices follow no
order, so a parent may stand after its child.

A walk that is as long as the deepest path meets exactly the nodes of the path, from its end
to its start, and then stays at the root. The depth, mask and path buffers are read off that
one fact. Sorting treats padding as an entry above every node.
-/

namespace SpecBlock.Building
open Stores ParentChain

/-- The parent of a node, counting the root as node zero. -/
def ParentOf (parents : List Int) (node above : Nat) : Prop :=
  ∃ index parent, node = index + 1 ∧ parents[index]? = some parent ∧
    above = if 0 ≤ parent then (parent + 1).toNat else 0

/-- The parents of a tree: each is negative, for a child of the root, or an index of the
table, and no node is its own ancestor. -/
structure ParentTable where
  parents : List Int
  inside : ∀ parent ∈ parents, parent < parents.length
  acyclic : Acyclic (ParentOf parents)

namespace ParentTable

variable (table : ParentTable) {node above : Nat} {path : List Nat}

/-- The number of nodes, the root included. -/
def size : Nat := table.parents.length + 1

/-- The nodes from the root to a node. -/
def Path (node : Nat) (path : List Nat) : Prop := RootPath (ParentOf table.parents) 0 node path

/-- A node is as many links below the root as its path has. -/
def HasDepth (node depth : Nat) : Prop := ∃ path, table.Path node path ∧ path.length = depth + 1

/-- The nodes that are nobody's parent. -/
def IsLeaf (node : Nat) : Prop :=
  node < table.size ∧ ∀ below, ¬ ParentOf table.parents below node

theorem rooted : Rooted (ParentOf table.parents) 0 where
  single := by
    rintro node above other ⟨index, parent, rfl, read, rfl⟩ ⟨index', parent', same, read', rfl⟩
    obtain rfl : index = index' := by omega
    rw [read, Option.some_inj] at read'
    rw [read']
  top := by
    rintro above ⟨index, parent, same, -⟩
    omega

theorem parentTensor_length : (parentTensor table.parents).length = table.size := by
  simp [parentTensor, size]

theorem parentOf_iff : ParentOf table.parents node above ↔
    node ≠ 0 ∧ (parentTensor table.parents)[node]? = some above := by
  cases node with
  | zero => simp [ParentOf]
  | succ index =>
    simp only [ParentOf, parentTensor, List.getElem?_cons_succ, List.getElem?_map,
      Option.map_eq_some_iff, ne_eq, Nat.add_eq_zero_iff, one_ne_zero, and_false, not_false_eq_true,
      true_and]
    constructor
    · rintro ⟨other, parent, same, read, rfl⟩
      obtain rfl : index = other := by omega
      exact ⟨parent, read, rfl⟩
    · rintro ⟨parent, read, rfl⟩
      exact ⟨index, parent, rfl, read, rfl⟩

theorem parentOf_inside (link : ParentOf table.parents node above) :
    node < table.size ∧ above < table.size := by
  obtain ⟨index, parent, rfl, read, rfl⟩ := link
  have bound : parent < table.parents.length := table.inside parent (List.mem_of_getElem? read)
  have within : index < table.parents.length := (List.getElem?_eq_some_iff.mp read).1
  unfold size
  split <;> omega

theorem exists_parent (inside : node < table.size) (proper : node ≠ 0) :
    ∃ above, ParentOf table.parents node above := by
  have within : node < (parentTensor table.parents).length := by
    rw [parentTensor_length]
    exact inside
  exact ⟨_, table.parentOf_iff.mpr ⟨proper, List.getElem?_eq_getElem within⟩⟩

theorem exists_path (inside : node < table.size) : ∃ path, table.Path node path := by
  apply exists_rootPath (Set.finite_lt_nat table.size) table.acyclic _ node inside
  intro other otherInside proper
  obtain ⟨above, link⟩ := table.exists_parent otherInside proper
  exact ⟨above, (table.parentOf_inside link).2, link⟩

theorem path_inside (rooted : table.Path node path) (member : above ∈ path)
    (inside : node < table.size) : above < table.size := by
  induction rooted.mem_ancestor above member with
  | refl => exact inside
  | tail _ link _ => exact (table.parentOf_inside link).2

theorem hasDepth_iff (rooted : table.Path node path) (depth : Nat) :
    table.HasDepth node depth ↔ path.length = depth + 1 := by
  constructor
  · rintro ⟨other, otherRooted, length⟩
    rw [rooted.unique table.rooted otherRooted]
    exact length
  · intro length
    exact ⟨path, rooted, length⟩

theorem path_zero (rooted : table.Path node path) (position : Nat) (within : position < path.length) :
    path.getD position 0 = 0 ↔ position = 0 := by
  rw [List.getD_eq_getElem _ _ within]
  cases position with
  | zero =>
    have first : path[0]? = some 0 := rooted.first
    rw [List.getElem?_eq_getElem within, Option.some_inj] at first
    simp [first]
  | succ position =>
    obtain ⟨above, -, link⟩ := rooted.link position _ (List.getElem?_eq_getElem within)
    simp [(table.parentOf_iff.mp link).1]

/-- The shifted table leads from a node of a path to the one before it. -/
theorem path_parent (rooted : table.Path node path) (position : Nat)
    (within : position + 1 < path.length) :
    (parentTensor table.parents).getD (path.getD (position + 1) 0) 0 = path.getD position 0 := by
  obtain ⟨above, read, link⟩ := rooted.link position _ (List.getElem?_eq_getElem within)
  rw [List.getD_eq_getElem _ _ within, List.getD_eq_getElem?_getD, (table.parentOf_iff.mp link).2,
    List.getD_eq_getElem?_getD, read]

theorem path_last (rooted : table.Path node path) : path.getD (path.length - 1) 0 = node := by
  rw [List.getD_eq_getElem?_getD, rooted.last]
  rfl

/-- The depth program stands, after some turns, as many nodes above its own as its path allows,
has counted the links to there and marked the nodes it left. -/
theorem depthWalk_turns (rooted : table.Path node path) (np1 turns : Nat) :
    (List.range turns).foldl
        (fun (walk : DepthWalk) _ => walk.turn (parentTensor table.parents) np1 node) ⟨node, 0, []⟩ =
      { cur := path.getD (path.length - 1 - turns) 0
        depth := min turns (path.length - 1)
        marked := (List.range turns).map
          (fun turn => (node * np1 + path.getD (path.length - 1 - turn) 0, 1)) } := by
  have positive : 0 < path.length := rooted.length_pos
  induction turns with
  | zero =>
    rw [Nat.sub_zero, table.path_last rooted]
    simp
  | succ turns ih =>
    rw [List.range_succ, List.foldl_append, ih, List.map_append]
    have atRoot := table.path_zero rooted (path.length - 1 - turns) (by omega)
    simp only [List.foldl_cons, List.foldl_nil, DepthWalk.turn, atRoot]
    by_cases reached : path.length - 1 ≤ turns
    · have here : path.length - 1 - turns = 0 := by omega
      have next : path.length - 1 - (turns + 1) = 0 := by omega
      have start : path.getD 0 0 = 0 := (table.path_zero rooted 0 positive).mpr rfl
      simp only [here, next, start, if_true, List.map_cons, List.map_nil, DepthWalk.mk.injEq,
        true_and, and_true]
      omega
    · have here : path.length - 1 - turns = path.length - 1 - (turns + 1) + 1 := by omega
      have notRoot : ¬ path.length - 1 - turns = 0 := by omega
      have climbed := table.path_parent rooted (path.length - 1 - (turns + 1)) (by omega)
      rw [← here] at climbed
      simp only [notRoot, if_false, climbed, List.map_cons, List.map_nil, DepthWalk.mk.injEq,
        true_and, and_true]
      omega

theorem depthWalk_depth (rooted : table.Path node path) (np1 maxDepth : Nat)
    (enough : path.length ≤ maxDepth + 1) :
    (treeDepthMaskKernel (parentTensor table.parents) np1 maxDepth node).depth =
      path.length - 1 := by
  unfold treeDepthMaskKernel
  rw [table.depthWalk_turns rooted]
  show min (maxDepth + 1) (path.length - 1) = path.length - 1
  omega

/-- A walk long enough for its node marks the node's path and nothing else. -/
theorem depthWalk_marked (rooted : table.Path node path) (np1 maxDepth : Nat)
    (enough : path.length ≤ maxDepth + 1) (entry : Nat × Nat) :
    entry ∈ (treeDepthMaskKernel (parentTensor table.parents) np1 maxDepth node).marked ↔
      ∃ visited ∈ path, entry = (node * np1 + visited, 1) := by
  have positive : 0 < path.length := rooted.length_pos
  unfold treeDepthMaskKernel
  rw [table.depthWalk_turns rooted, List.mem_map]
  constructor
  · rintro ⟨turn, -, rfl⟩
    have within : path.length - 1 - turn < path.length := by omega
    rw [List.getD_eq_getElem _ _ within]
    exact ⟨_, List.getElem_mem within, rfl⟩
  · rintro ⟨visited, member, rfl⟩
    obtain ⟨position, within, rfl⟩ := List.mem_iff_getElem.mp member
    refine ⟨path.length - 1 - position, List.mem_range.mpr (by omega), ?_⟩
    have back : path.length - 1 - (path.length - 1 - position) = position := by omega
    rw [back, List.getD_eq_getElem _ _ within]

/-- The path program stands, after some turns, as many nodes above its leaf as its path allows,
and has written the nodes it left into the row from right to left. -/
theorem retrieveWalk_turns (rooted : table.Path node path) (rowWidth lid turns : Nat) :
    (List.range turns).foldl
        (RetrieveWalk.turn (parentTensor table.parents) rowWidth (path.length - 1) lid) ⟨node, []⟩ =
      { cur := path.getD (path.length - 1 - turns) 0
        written := (List.range (min turns path.length)).map (fun turn =>
          (lid * rowWidth + (path.length - 1 - turn),
            ((path.getD (path.length - 1 - turn) 0 : Nat) : Int))) } := by
  have positive : 0 < path.length := rooted.length_pos
  induction turns with
  | zero =>
    rw [Nat.sub_zero, table.path_last rooted]
    simp
  | succ turns ih =>
    rw [List.range_succ, List.foldl_append, ih]
    have atRoot := table.path_zero rooted (path.length - 1 - turns) (by omega)
    have start : path.getD 0 0 = 0 := (table.path_zero rooted 0 positive).mpr rfl
    simp only [List.foldl_cons, List.foldl_nil, RetrieveWalk.turn, RetrieveWalk.mk.injEq]
    constructor
    · by_cases reached : path.length - 1 ≤ turns
      · have here : path.length - 1 - turns = 0 := by omega
        have next : path.length - 1 - (turns + 1) = 0 := by omega
        rw [here, next, start, if_neg (Nat.lt_irrefl 0)]
      · have here : path.length - 1 - turns = path.length - 1 - (turns + 1) + 1 := by omega
        have climbed := table.path_parent rooted (path.length - 1 - (turns + 1)) (by omega)
        rw [← here] at climbed
        rw [if_pos (by omega), climbed]
    · by_cases valid : turns ≤ path.length - 1
      · have column : (((path.length - 1 : Nat) : Int) - turns).toNat = path.length - 1 - turns := by
          omega
        rw [show min (turns + 1) path.length = min turns path.length + 1 by omega, List.range_succ,
          List.map_append]
        have all : min turns path.length = turns := by omega
        simp [valid, column, all]
      · rw [show min (turns + 1) path.length = min turns path.length by omega]
        simp [valid]

end ParentTable

end SpecBlock.Building
