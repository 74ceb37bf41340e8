import Mathlib.Data.List.Basic
import Mathlib.Data.List.Nodup
import Mathlib.Data.List.Perm.Basic
import Mathlib.Data.List.Perm.Lattice
import Mathlib.Logic.Relation

/-!
# First children and next siblings

A forest whose nodes are numbered so that a parent comes before its children is often stored in
two tables of links. One leads from a node to the first of its children, the other from a node to
the next child of the same parent.

Following the sibling links from the first child meets the children of a node, each once and in
increasing order. A traversal that goes down the first link and along the second one meets every
node below, each once. Both come to an end, since a link leads to a greater number.

A node may have no parent and yet not be a root of interest, so a forest may also hold nodes that
no link leads to.
-/

namespace SpecBlock.ChildSibling

/-- The children of a node from some number on, in increasing order. -/
def childrenFrom (nodes : Nat) (parent : Nat → Option Nat) (start above : Nat) : List Nat :=
  (List.range' start (nodes - start)).filter (fun child => parent child = some above)

/-- The children of a node, in increasing order. -/
def children (nodes : Nat) (parent : Nat → Option Nat) (above : Nat) : List Nat :=
  childrenFrom nodes parent 0 above

/-- The first child of a node. -/
def firstChild (nodes : Nat) (parent : Nat → Option Nat) (above : Nat) : Option Nat :=
  (childrenFrom nodes parent 0 above).head?

/-- The next child of a node's parent. -/
def nextSibling (nodes : Nat) (parent : Nat → Option Nat) (node : Nat) : Option Nat :=
  (parent node).bind (fun above => (childrenFrom nodes parent (node + 1) above).head?)

/-- Follow one link to its end; nothing if so many steps do not get there. -/
def follow (next : Nat → Option Nat) : Nat → Option Nat → Option (List Nat)
  | _, none => some []
  | 0, some _ => none
  | steps + 1, some node => (follow next steps (next node)).map (node :: ·)

/-- Go down the first link and then along the second one, from a node to all it leads to; nothing
if the links go deeper than so many steps. -/
def traverse (first next : Nat → Option Nat) : Nat → Option Nat → Option (List Nat)
  | _, none => some []
  | 0, some _ => none
  | steps + 1, some node =>
    (traverse first next steps (first node)).bind (fun under =>
      (traverse first next steps (next node)).map (fun beside => node :: (under ++ beside)))

/-- The link from a node to its parent. -/
def Under (parent : Nat → Option Nat) (node above : Nat) : Prop := parent node = some above

section

variable {nodes start above node : Nat} {parent : Nat → Option Nat}

@[simp] theorem mem_childrenFrom : node ∈ childrenFrom nodes parent start above ↔
    start ≤ node ∧ node < nodes ∧ parent node = some above := by
  simp only [childrenFrom, List.mem_filter, List.mem_range'_1, decide_eq_true_eq]
  constructor
  · rintro ⟨⟨low, high⟩, link⟩
    exact ⟨low, by omega, link⟩
  · rintro ⟨low, high, link⟩
    exact ⟨⟨low, by omega⟩, link⟩

@[simp] theorem mem_children : node ∈ children nodes parent above ↔
    node < nodes ∧ parent node = some above := by
  simp [children]

theorem childrenFrom_sorted (nodes start above : Nat) (parent : Nat → Option Nat) :
    (childrenFrom nodes parent start above).Pairwise (· < ·) :=
  List.Pairwise.filter _ List.pairwise_lt_range'

theorem childrenFrom_step (inside : start < nodes) : childrenFrom nodes parent start above =
    if parent start = some above then start :: childrenFrom nodes parent (start + 1) above
    else childrenFrom nodes parent (start + 1) above := by
  have split : nodes - start = (nodes - (start + 1)) + 1 := by omega
  rw [childrenFrom, split, List.range'_succ, List.filter_cons]
  by_cases here : parent start = some above
  · simp [here, childrenFrom]
  · simp [here, childrenFrom]

/-- Behind the first child come the children from the next number on. -/
theorem childrenFrom_cons {child : Nat} {rest : List Nat}
    (listed : childrenFrom nodes parent start above = child :: rest) :
    rest = childrenFrom nodes parent (child + 1) above := by
  induction left : nodes - start generalizing start with
  | zero => simp [childrenFrom, left] at listed
  | succ left ih =>
    rw [childrenFrom_step (by omega)] at listed
    by_cases here : parent start = some above
    · rw [if_pos here] at listed
      obtain ⟨rfl, rfl⟩ := List.cons.inj listed
      rfl
    · rw [if_neg here] at listed
      exact ih listed (by omega)

/-- The first of the children from some number on is the least of them. -/
theorem head_childrenFrom {child : Nat}
    (first : (childrenFrom nodes parent start above).head? = some child) :
    start ≤ child ∧ child < nodes ∧ parent child = some above ∧
      childrenFrom nodes parent start above = child :: childrenFrom nodes parent (child + 1) above := by
  obtain ⟨rest, listed⟩ := List.head?_eq_some_iff.mp first
  have member : child ∈ childrenFrom nodes parent start above := by
    rw [listed]
    exact List.mem_cons_self
  rw [mem_childrenFrom] at member
  refine ⟨member.1, member.2.1, member.2.2, ?_⟩
  rw [listed, childrenFrom_cons listed]

theorem childrenFrom_succ : childrenFrom (nodes + 1) parent start above =
    if start ≤ nodes ∧ parent nodes = some above then childrenFrom nodes parent start above ++ [nodes]
    else childrenFrom nodes parent start above := by
  by_cases behind : start ≤ nodes
  · have split : nodes + 1 - start = (nodes - start) + 1 := by omega
    have last : start + (nodes - start) = nodes := by omega
    rw [childrenFrom, split, List.range'_1_concat, List.filter_append, last]
    by_cases here : parent nodes = some above
    · simp [here, behind, childrenFrom]
    · simp [here, childrenFrom]
  · simp [behind, childrenFrom, show nodes + 1 - start = 0 by omega, show nodes - start = 0 by omega]

theorem last_childrenFrom (listed : node ∈ childrenFrom nodes parent start above) :
    (childrenFrom nodes parent start above).getLast? = some node ↔
      childrenFrom nodes parent (node + 1) above = [] := by
  obtain ⟨low, inside, link⟩ := mem_childrenFrom.mp listed
  constructor
  · intro isLast
    obtain ⟨earlier, split⟩ := List.getLast?_eq_some_iff.mp isLast
    apply List.eq_nil_iff_forall_not_mem.mpr
    intro other member
    obtain ⟨behind, otherInside, otherLink⟩ := mem_childrenFrom.mp member
    have again : other ∈ childrenFrom nodes parent start above :=
      mem_childrenFrom.mpr ⟨by omega, otherInside, otherLink⟩
    have sorted := childrenFrom_sorted nodes start above parent
    rw [split] at again sorted
    rcases List.mem_append.mp again with before | same
    · have lower := (List.pairwise_append.mp sorted).2.2 other before node (List.mem_singleton.mpr rfl)
      omega
    · have equal := List.mem_singleton.mp same
      omega
  · intro bare
    obtain ⟨earlier, last, split⟩ := List.eq_nil_or_concat' _ |>.resolve_left (List.ne_nil_of_mem listed)
    have member : last ∈ childrenFrom nodes parent start above := by
      rw [split]
      exact List.mem_append_right _ (List.mem_singleton.mpr rfl)
    obtain ⟨-, lastInside, lastLink⟩ := mem_childrenFrom.mp member
    have notBehind : ¬ node < last := by
      intro behind
      have impossible : last ∈ childrenFrom nodes parent (node + 1) above :=
        mem_childrenFrom.mpr ⟨behind, lastInside, lastLink⟩
      rw [bare] at impossible
      exact List.not_mem_nil impossible
    have sorted := childrenFrom_sorted nodes start above parent
    rw [split] at listed sorted
    rw [split, List.getLast?_concat]
    rcases List.mem_append.mp listed with before | same
    · have lower := (List.pairwise_append.mp sorted).2.2 node before last (List.mem_singleton.mpr rfl)
      omega
    · rw [List.mem_singleton.mp same]

theorem nextSibling_child (child : parent node = some above) :
    nextSibling nodes parent node = (childrenFrom nodes parent (node + 1) above).head? := by
  rw [nextSibling, child, Option.bind_some]

/-- The sibling links from a child on meet the children from there. -/
theorem follow_childrenFrom (steps : Nat) (enough : nodes ≤ start + steps) :
    follow (nextSibling nodes parent) steps (childrenFrom nodes parent start above).head? =
      some (childrenFrom nodes parent start above) := by
  induction steps generalizing start with
  | zero =>
    have done : childrenFrom nodes parent start above = [] := by
      simp [childrenFrom, show nodes - start = 0 by omega]
    simp [done, follow]
  | succ steps ih =>
    cases first : (childrenFrom nodes parent start above).head? with
    | none => simp [List.head?_eq_none_iff.mp first, follow]
    | some child =>
      obtain ⟨low, inside, link, listed⟩ := head_childrenFrom first
      rw [follow, nextSibling_child link, ih (by omega), Option.map_some, listed]

/-- The sibling links from the first child on meet the children of a node. -/
theorem follow_children (steps : Nat) (enough : nodes ≤ steps) :
    follow (nextSibling nodes parent) steps (firstChild nodes parent above) =
      some (children nodes parent above) :=
  follow_childrenFrom steps (by omega)

end

section traversal

variable {nodes : Nat} {parent : Nat → Option Nat}

theorem under_unique : Relator.RightUnique (Under parent) := by
  intro node above other link again
  exact Option.some.inj (link.symm.trans again)

section ordered

variable (ordered : ∀ node above, parent node = some above → above < node)

include ordered

theorem ancestor_le {node above : Nat} (chain : Relation.ReflTransGen (Under parent) node above) :
    above ≤ node := by
  induction chain with
  | refl => exact Nat.le_refl _
  | tail chain link ih => exact Nat.le_trans (Nat.le_of_lt (ordered _ _ link)) ih

theorem below_one_child {node above child other : Nat} (childLink : parent child = some above)
    (otherLink : parent other = some above)
    (chain : Relation.ReflTransGen (Under parent) node child)
    (otherChain : Relation.ReflTransGen (Under parent) node other) : child = other := by
  have apart : ∀ lower upper, parent lower = some above → parent upper = some above →
      Relation.ReflTransGen (Under parent) lower upper → lower = upper := by
    intro lower upper lowerLink upperLink between
    rcases between.cases_head with same | ⟨next, link, further⟩
    · exact same
    · obtain rfl : next = above := under_unique link lowerLink
      have bound := ancestor_le ordered further
      have strict := ordered upper next upperLink
      omega
  rcases Relation.ReflTransGen.total_of_right_unique under_unique chain otherChain with
    between | between
  · exact apart _ _ childLink otherLink between
  · exact (apart _ _ otherLink childLink between).symm

theorem childrenFrom_behind (above : Nat) :
    childrenFrom nodes parent 0 above = childrenFrom nodes parent (above + 1) above := by
  have sorted := childrenFrom_sorted nodes 0 above parent
  have sorted' := childrenFrom_sorted nodes (above + 1) above parent
  apply List.Perm.eq_of_pairwise (fun lower upper _ _ below behind => absurd behind (Nat.lt_asymm below))
    sorted sorted'
  rw [List.perm_ext_iff_of_nodup sorted.nodup sorted'.nodup]
  intro node
  rw [mem_childrenFrom, mem_childrenFrom]
  constructor
  · rintro ⟨-, inside, link⟩
    exact ⟨ordered _ _ link, inside, link⟩
  · rintro ⟨-, inside, link⟩
    exact ⟨Nat.zero_le _, inside, link⟩

/-- Whatever is below a node is the node itself or below one of its children. -/
theorem below_iff {node above : Nat} (inside : node < nodes) :
    Relation.ReflTransGen (Under parent) node above ↔ node = above ∨
      ∃ child ∈ childrenFrom nodes parent (above + 1) above,
        Relation.ReflTransGen (Under parent) node child := by
  constructor
  · intro chain
    rcases chain.cases_tail with same | ⟨child, further, link⟩
    · exact .inl same.symm
    · have bound := ancestor_le ordered further
      exact .inr ⟨child, mem_childrenFrom.mpr ⟨ordered _ _ link, by omega, link⟩, further⟩
  · rintro (rfl | ⟨child, listed, further⟩)
    · exact .refl
    · exact further.tail (mem_childrenFrom.mp listed).2.2

/-- The traversal from a child on meets what is below the children from there, each once. -/
theorem traverse_childrenFrom (steps start above : Nat) (enough : nodes ≤ start + steps) :
    ∃ order, traverse (firstChild nodes parent) (nextSibling nodes parent) steps
        (childrenFrom nodes parent start above).head? = some order ∧ order.Nodup ∧
      ∀ node, node ∈ order ↔ node < nodes ∧ ∃ child ∈ childrenFrom nodes parent start above,
        Relation.ReflTransGen (Under parent) node child := by
  induction steps generalizing start above with
  | zero =>
    have done : childrenFrom nodes parent start above = [] := by
      simp [childrenFrom, show nodes - start = 0 by omega]
    exact ⟨[], by simp [done, traverse], List.nodup_nil, by simp [done]⟩
  | succ steps ih =>
    cases first : (childrenFrom nodes parent start above).head? with
    | none => exact ⟨[], rfl, List.nodup_nil, by simp [List.head?_eq_none_iff.mp first]⟩
    | some child =>
      obtain ⟨low, inside, link, listed⟩ := head_childrenFrom first
      obtain ⟨under, goesDown, underOnce, mem_under⟩ :=
        ih (child + 1) child (by omega)
      obtain ⟨beside, goesAlong, besideOnce, mem_beside⟩ :=
        ih (child + 1) above (by omega)
      have firstLink : firstChild nodes parent child =
          (childrenFrom nodes parent (child + 1) child).head? := by
        rw [firstChild, childrenFrom_behind ordered]
      have apart : ∀ node, Relation.ReflTransGen (Under parent) node child → node ∉ beside := by
        intro node chain again
        obtain ⟨-, other, otherListed, otherChain⟩ := (mem_beside node).mp again
        obtain ⟨behind, -, otherLink⟩ := mem_childrenFrom.mp otherListed
        have same := below_one_child ordered link otherLink chain otherChain
        omega
      have under_below : ∀ node, node ∈ under → node ≠ child ∧
          Relation.ReflTransGen (Under parent) node child := by
        intro node member
        obtain ⟨-, lower, lowerListed, chain⟩ := (mem_under node).mp member
        obtain ⟨behind, -, lowerLink⟩ := mem_childrenFrom.mp lowerListed
        have bound := ancestor_le ordered chain
        exact ⟨by omega, chain.tail lowerLink⟩
      refine ⟨child :: (under ++ beside), ?_, ?_, ?_⟩
      · rw [traverse, firstLink, goesDown, nextSibling_child link, goesAlong]
        rfl
      · rw [List.nodup_cons, List.mem_append, List.nodup_append]
        refine ⟨?_, underOnce, besideOnce, ?_⟩
        · rintro (member | member)
          · exact (under_below child member).1 rfl
          · exact apart child .refl member
        · rintro node member other otherMember rfl
          exact apart node (under_below node member).2 otherMember
      · intro node
        rw [listed, List.mem_cons, List.mem_append, mem_under, mem_beside]
        by_cases within : node < nodes
        · simp only [within, true_and, List.exists_mem_cons_iff]
          rw [below_iff ordered within, or_assoc]
        · have other : node ≠ child := by omega
          simp [within, other]

/-- The traversal from a root meets the root and what is below it, each once. -/
theorem traverse_root (steps root : Nat) (enough : nodes ≤ steps) (inside : root < nodes)
    (top : parent root = none) :
    ∃ order, traverse (firstChild nodes parent) (nextSibling nodes parent) steps (some root) =
        some order ∧ order.Nodup ∧
      ∀ node, node ∈ order ↔ node < nodes ∧ Relation.ReflTransGen (Under parent) node root := by
  obtain ⟨steps, rfl⟩ : ∃ fewer, steps = fewer + 1 := ⟨steps - 1, by omega⟩
  obtain ⟨under, goesDown, underOnce, mem_under⟩ :=
    traverse_childrenFrom ordered steps (root + 1) root (show nodes ≤ _ by omega)
  refine ⟨root :: under, ?_, ?_, ?_⟩
  · rw [traverse, firstChild, childrenFrom_behind ordered, goesDown, nextSibling, top, Option.bind_none,
      Option.bind_some]
    simp [traverse]
  · refine List.nodup_cons.mpr ⟨?_, underOnce⟩
    intro member
    obtain ⟨-, child, listed, chain⟩ := (mem_under root).mp member
    have bound := ancestor_le ordered chain
    have behind := (mem_childrenFrom.mp listed).1
    omega
  · intro node
    rw [List.mem_cons, mem_under]
    by_cases within : node < nodes
    · simp only [within, true_and]
      rw [below_iff ordered within]
    · have other : node ≠ root := by omega
      simp [within, other]

/-- When every node but the root has a parent, the traversal meets all nodes, each once. -/
theorem traverse_tree (steps : Nat) (enough : nodes ≤ steps) (inside : 0 < nodes)
    (top : parent 0 = none) (linked : ∀ node, 0 < node → node < nodes → parent node ≠ none) :
    ∃ order, traverse (firstChild nodes parent) (nextSibling nodes parent) steps (some 0) =
        some order ∧ order.Perm (List.range nodes) := by
  obtain ⟨order, walked, once, mem_order⟩ := traverse_root ordered steps 0 enough inside top
  refine ⟨order, walked, (List.perm_ext_iff_of_nodup once List.nodup_range).mpr ?_⟩
  have reaches : ∀ node, node < nodes → Relation.ReflTransGen (Under parent) node 0 := by
    intro node
    induction node using Nat.strongRecOn with
    | ind node ih =>
      intro within
      by_cases isRoot : node = 0
      · subst isRoot
        exact .refl
      · obtain ⟨above, link⟩ := Option.ne_none_iff_exists'.mp (linked node (by omega) within)
        have before := ordered node above link
        exact (ih above before (by omega)).head link
  intro node
  rw [mem_order, List.mem_range]
  exact ⟨fun member => member.1, fun within => ⟨within, reaches node within⟩⟩

end ordered

end traversal

end SpecBlock.ChildSibling
