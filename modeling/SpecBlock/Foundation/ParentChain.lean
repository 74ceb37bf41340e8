import Mathlib.Logic.Relation
import Mathlib.Order.WellFoundedSet

/-!
# Parent links and root paths

A forest is given by the links from its nodes to their parents. A node's path starts at the
root and follows the links down to the node, so its length counts the links and its entries
are the node and its ancestors. When every node has one parent and the root has none, a node
has at most one path.

Nothing orders the nodes. On finitely many nodes without a cycle the links are well-founded
in both directions, so every node has a path and lies on the path of a leaf.
-/

namespace SpecBlock.ParentChain

universe u
variable {α : Type u} {parent : α → α → Prop} {root : α}

/-- The nodes from the root down to a node, both included. -/
inductive RootPath (parent : α → α → Prop) (root : α) : α → List α → Prop where
  | root : RootPath parent root root [root]
  | child {node above : α} {path : List α} (link : parent node above)
      (rest : RootPath parent root above path) : RootPath parent root node (path ++ [node])

/-- Links of a rooted forest: one parent for a node, and none for the root. -/
structure Rooted (parent : α → α → Prop) (root : α) : Prop where
  single : ∀ node above other, parent node above → parent node other → above = other
  top : ∀ above, ¬ parent root above

/-- No node is its own ancestor. -/
def Acyclic (parent : α → α → Prop) : Prop := ∀ node, ¬ Relation.TransGen parent node node

namespace RootPath

variable {node : α} {path : List α}

theorem first (rooted : RootPath parent root node path) : path[0]? = some root := by
  induction rooted with
  | root => rfl
  | @child node above path link rest ih =>
    have inside : 0 < path.length := (List.getElem?_eq_some_iff.mp ih).1
    rw [List.getElem?_append_left inside]
    exact ih

theorem length_pos (rooted : RootPath parent root node path) : 0 < path.length :=
  (List.getElem?_eq_some_iff.mp rooted.first).1

theorem last (rooted : RootPath parent root node path) : path[path.length - 1]? = some node := by
  cases rooted with
  | root => rfl
  | child link rest => simp

/-- Every node of a path but the root has the node before it as its parent. -/
theorem link (rooted : RootPath parent root node path) (position : Nat) (below : α)
    (read : path[position + 1]? = some below) :
    ∃ above, path[position]? = some above ∧ parent below above := by
  induction rooted with
  | root => simp at read
  | @child node above path link rest ih =>
    have within : position + 1 < (path ++ [node]).length := (List.getElem?_eq_some_iff.mp read).1
    rw [List.length_append, List.length_singleton] at within
    by_cases earlier : position + 1 < path.length
    · rw [List.getElem?_append_left earlier] at read
      rw [List.getElem?_append_left (by omega)]
      exact ih read
    · have positionSame : position = path.length - 1 := by omega
      have same : node = below := by
        rw [List.getElem?_append_right (by omega)] at read
        simpa [show position + 1 - path.length = 0 by omega] using read
      subst same
      exact ⟨above, by rw [List.getElem?_append_left (by omega), positionSame, rest.last], link⟩

/-- The nodes of a path are its node and that node's ancestors. -/
theorem mem_ancestor (rooted : RootPath parent root node path) (other : α) (member : other ∈ path) :
    Relation.ReflTransGen parent node other := by
  induction rooted with
  | root =>
    obtain rfl := List.mem_singleton.mp member
    exact .refl
  | child link rest ih =>
    rcases List.mem_append.mp member with earlier | here
    · exact (ih earlier).head link
    · obtain rfl := List.mem_singleton.mp here
      exact .refl

theorem ancestor_mem (forest : Rooted parent root) (rooted : RootPath parent root node path)
    (other : α) (above : Relation.ReflTransGen parent node other) : other ∈ path := by
  induction rooted with
  | root =>
    rcases above.cases_head with rfl | ⟨next, link, -⟩
    · exact List.mem_singleton.mpr rfl
    · exact absurd link (forest.top next)
  | child link rest ih =>
    rcases above.cases_head with rfl | ⟨next, otherLink, further⟩
    · exact List.mem_append_right _ (List.mem_singleton.mpr rfl)
    · obtain rfl := forest.single _ _ _ link otherLink
      exact List.mem_append_left _ (ih further)

theorem unique (forest : Rooted parent root) (rooted : RootPath parent root node path)
    {other : List α} (again : RootPath parent root node other) : path = other := by
  induction rooted generalizing other with
  | root =>
    cases again with
    | root => rfl
    | child link rest => exact absurd link (forest.top _)
  | child link rest ih =>
    cases again with
    | root => exact absurd link (forest.top _)
    | child otherLink otherRest =>
      obtain rfl := forest.single _ _ _ link otherLink
      rw [ih otherRest]

/-- A measure that decreases along every link bounds the length of a path. -/
theorem length_le (measure : α → Nat)
    (decreasing : ∀ node above, parent node above → measure above < measure node)
    (rooted : RootPath parent root node path) : path.length ≤ measure node + 1 := by
  induction rooted with
  | root => simp
  | child link rest ih =>
    have lower := decreasing _ _ link
    rw [List.length_append, List.length_singleton]
    omega

end RootPath

theorem acyclic_of_decreasing (measure : α → Nat)
    (decreasing : ∀ node above, parent node above → measure above < measure node) :
    Acyclic parent := by
  have lower : ∀ node above, Relation.TransGen parent node above → measure above < measure node := by
    intro node above chain
    induction chain with
    | single link => exact decreasing _ _ link
    | tail _ link ih => exact (decreasing _ _ link).trans ih
  intro node chain
  exact absurd (lower node node chain) (Nat.lt_irrefl _)

/-- On finitely many nodes, links without a cycle are well-founded. -/
theorem wellFoundedOn_of_acyclic {nodes : Set α} (finite : nodes.Finite) (acyclic : Acyclic parent) :
    nodes.WellFoundedOn (Relation.TransGen parent) := by
  have transitive : IsTrans α (Relation.TransGen parent) := ⟨fun _ _ _ => Relation.TransGen.trans⟩
  have irreflexive : Std.Irrefl (Relation.TransGen parent) := ⟨acyclic⟩
  have strict : IsStrictOrder α (Relation.TransGen parent) := { }
  exact finite.wellFoundedOn

theorem Acyclic.reverse (acyclic : Acyclic parent) : Acyclic (fun above node => parent node above) :=
  fun node chain => acyclic node (Relation.transGen_swap.mp chain)

/-- Every node has a path when each node but the root has a parent among the nodes. -/
theorem exists_rootPath {nodes : Set α} (finite : nodes.Finite) (acyclic : Acyclic parent)
    (linked : ∀ node ∈ nodes, node ≠ root → ∃ above ∈ nodes, parent node above)
    (node : α) (member : node ∈ nodes) : ∃ path, RootPath parent root node path := by
  apply (wellFoundedOn_of_acyclic finite acyclic.reverse).induction member
  intro node member ih
  by_cases isRoot : node = root
  · subst isRoot
    exact ⟨_, .root⟩
  · obtain ⟨above, aboveMember, link⟩ := linked node member isRoot
    obtain ⟨path, rest⟩ := ih above aboveMember (.single link)
    exact ⟨_, .child link rest⟩

theorem exists_leaf {nodes : Set α} (finite : nodes.Finite) (acyclic : Acyclic parent)
    (node : α) (member : node ∈ nodes) :
    ∃ leaf ∈ nodes, (∀ below ∈ nodes, ¬ parent below leaf) ∧
      Relation.ReflTransGen parent leaf node := by
  apply (wellFoundedOn_of_acyclic finite acyclic).induction member
  intro node member ih
  by_cases isLeaf : ∀ below ∈ nodes, ¬ parent below node
  · exact ⟨node, member, isLeaf, .refl⟩
  · push Not at isLeaf
    obtain ⟨below, belowMember, link⟩ := isLeaf
    obtain ⟨leaf, leafMember, bottom, chain⟩ := ih below belowMember (.single link)
    exact ⟨leaf, leafMember, bottom, chain.tail link⟩

end SpecBlock.ParentChain
