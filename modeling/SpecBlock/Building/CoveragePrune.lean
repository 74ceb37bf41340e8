import SpecBlock.Building.TreePrune
import SpecBlock.Foundation.StableSort

/-!
# Coverage pruning and repeated paths

`_prune_tree_coverage_np` groups the leaves by the tokens on the way down to them and keeps the
best leaf of each group; equal scores go to the leaf that stands first. The other leaves repeat a
path and are passed over by the first loop.

A repeating leaf has no children, so the ancestors of any other node do not include one. What the
first loop can choose from is therefore every node but the repeating leaves, and it chooses as much
of that as the budget allows. Whether a repeating leaf is kept is a matter of numbers only: the
second loop has nothing left to do once there are enough other nodes.
-/

namespace SpecBlock.Building

open Rows ParentChain BudgetClosure StableSort

variable {L : Type}

/-- A node that is no node's parent. -/
def Leaf (n : Nat) (parents : List Int) (leaf : Nat) : Prop :=
  leaf < n ∧ ∀ child, ¬ Link n parents child leaf

/-- The tokens on the way down to a node. -/
inductive Spells (n : Nat) (arrays : TreeArrays L) : Nat → List Int → Prop
  | top (node : Nat) (token : Int) (inside : node < n)
      (root : arrays.parents[node]? = some (-1)) (read : arrays.tokens[node]? = some token) :
      Spells n arrays node [token]
  | child (node above : Nat) (token : Int) (tokens : List Int)
      (link : Link n arrays.parents node above) (read : arrays.tokens[node]? = some token)
      (spelled : Spells n arrays above tokens) : Spells n arrays node (tokens ++ [token])

/-- A leaf that no other leaf with the same tokens precedes: none has a higher log-probability, and
none of the same log-probability stands before it. -/
def BestLeaf [LinearOrder L] [Inhabited L] (n : Nat) (arrays : TreeArrays L) (leaf : Nat) : Prop :=
  Leaf n arrays.parents leaf ∧ ∀ other tokens, Leaf n arrays.parents other →
    Spells n arrays leaf tokens → Spells n arrays other tokens →
      ¬ Precedes arrays.lp other leaf

/-- A leaf that repeats the tokens of a better one. -/
def DuplicateLeaf [LinearOrder L] [Inhabited L] (n : Nat) (arrays : TreeArrays L) (leaf : Nat) : Prop :=
  Leaf n arrays.parents leaf ∧ ¬ BestLeaf n arrays leaf

/-- The nodes on the way down to the best leaves. -/
noncomputable def coveredNodes [LinearOrder L] [Inhabited L] (n : Nat) (arrays : TreeArrays L) :
    Finset Nat :=
  open Classical in
  (Finset.range n).filter (fun node =>
    ∃ leaf, BestLeaf n arrays leaf ∧ node ∈ ancestry n arrays.parents leaf)

section spelling

variable {n : Nat} {arrays : TreeArrays L} {node leaf : Nat} {tokens : List Int}

theorem Spells.unique {others : List Int} (spelled : Spells n arrays node tokens)
    (again : Spells n arrays node others) : tokens = others := by
  induction spelled generalizing others with
  | top node token inside root read =>
    cases again with
    | top _ other _ _ readOther =>
      obtain rfl := Option.some.inj (read.symm.trans readOther)
      rfl
    | child _ above _ _ link _ _ =>
      have same := Option.some.inj (root.symm.trans link.2)
      omega
  | child node above token tokens link read spelled ih =>
    cases again with
    | top _ other _ root _ =>
      have same := Option.some.inj (root.symm.trans link.2)
      omega
    | child _ otherAbove other otherTokens otherLink readOther spelledOther =>
      obtain rfl := Option.some.inj (read.symm.trans readOther)
      have same := Option.some.inj (link.2.symm.trans otherLink.2)
      obtain rfl : above = otherAbove := by omega
      rw [ih spelledOther]

theorem climb_spells (forest : Forest n arrays.parents) (holds : arrays.Holds n) (fuel : Nat)
    (inside : node < n) {chain : List Nat}
    (walked : climb arrays.parents [] fuel node = some chain) :
    Spells n arrays node (gather chain arrays.tokens).reverse := by
  induction fuel generalizing node chain with
  | zero => simp [climb] at walked
  | succ fuel ih =>
    have room : node < arrays.tokens.length := Nat.lt_of_lt_of_le inside holds.tokens
    have read := List.getElem?_eq_getElem room
    have here : (0 : Int) ≤ node ∧ ((node : Int)).toNat ∉ ([] : List Nat) := ⟨by omega, by simp⟩
    rw [climb, if_pos here] at walked
    rcases forest.parent_cases inside with top | ⟨above, link⟩
    · cases fuel with
      | zero => simp [top, climb] at walked
      | succ fuel =>
        obtain rfl : [node] = chain := by simpa [top, climb] using walked
        rw [gather_cons node [] _ _ read]
        exact .top node _ inside top read
    · obtain ⟨rest, further, rfl⟩ : ∃ rest, climb arrays.parents [] fuel above = some rest ∧
          node :: rest = chain := by
        simpa [link.2, Option.bind_eq_some_iff] using walked
      rw [gather_cons node rest _ _ read, List.reverse_cons]
      exact .child node above _ _ link read (ih (forest.link_inside link) further)

/-- Reading the paths of some leaves keeps the leaves, each with the tokens it spells. -/
theorem readPaths_spec (forest : Forest n arrays.parents) (holds : arrays.Holds n) (leaves : List Nat)
    (inside : ∀ leaf ∈ leaves, leaf < n) (paths : List (Nat × List Int))
    (read : leaves.mapM (fun leaf : Nat => do
      let chain ← climb arrays.parents [] (n + 1) leaf
      return (leaf, (gather chain arrays.tokens).reverse)) = some paths) :
    paths.map Prod.fst = leaves ∧ ∀ path ∈ paths, Spells n arrays path.1 path.2 := by
  induction leaves generalizing paths with
  | nil =>
    obtain rfl : [] = paths := by simpa using read
    exact ⟨rfl, by simp⟩
  | cons leaf rest ih =>
    rw [List.mapM_cons] at read
    obtain ⟨path, atLeaf, remaining⟩ := Option.bind_eq_some_iff.mp read
    obtain ⟨others, further, joined⟩ := Option.bind_eq_some_iff.mp remaining
    obtain ⟨chain, walked, paired⟩ := Option.bind_eq_some_iff.mp atLeaf
    obtain rfl : path :: others = paths := Option.some.inj joined
    obtain rfl : (leaf, (gather chain arrays.tokens).reverse) = path := Option.some.inj paired
    obtain ⟨leavesRest, spelled⟩ := ih
      (fun other member => inside other (List.mem_cons_of_mem leaf member)) others further
    refine ⟨by rw [List.map_cons, leavesRest], fun path member => ?_⟩
    rcases List.mem_cons.mp member with rfl | later
    · exact climb_spells forest holds (n + 1) (inside leaf List.mem_cons_self) walked
    · exact spelled path later

/-- The leaves are read in rising order, each with the tokens it spells. -/
theorem leafPaths_spec (forest : Forest n arrays.parents) (holds : arrays.Holds n)
    {paths : List (Nat × List Int)} (read : leafPaths n arrays = some paths) :
    (paths.map Prod.fst).Pairwise (· < ·) ∧
      (∀ leaf, leaf ∈ paths.map Prod.fst ↔ Leaf n arrays.parents leaf) ∧
      ∀ path ∈ paths, Spells n arrays path.1 path.2 := by
  obtain ⟨leaves, spelled⟩ := readPaths_spec forest holds _
    (fun leaf member => List.mem_range.mp (List.mem_filter.mp member).1) paths read
  rw [leaves]
  refine ⟨List.pairwise_lt_range.filter _, fun leaf => ?_, spelled⟩
  rw [List.mem_filter, List.mem_range, Leaf, decide_eq_true_eq, List.mem_filterMap]
  refine and_congr_right fun _ => ⟨fun childless child link => childless ?_, fun childless listed => ?_⟩
  · exact ⟨child, List.mem_range.mpr link.1, link.2⟩
  · obtain ⟨child, inside, link⟩ := listed
    exact childless child ⟨List.mem_range.mp inside, link⟩

end spelling

section distinct

variable {n : Nat} {arrays : TreeArrays L}

theorem Forest.ancestor_not_leaf (forest : Forest n arrays.parents) {node above : Nat}
    (member : above ∈ ancestry n arrays.parents node) (proper : above ≠ node) :
    ¬ Leaf n arrays.parents above := by
  intro leaf
  rcases (forest.mem_ancestry.mp member).cases_tail with same | ⟨child, -, link⟩
  · exact proper same
  · exact leaf.2 child link

/-- The nodes that are no repeating leaves hold each other's ancestors. -/
theorem Forest.ancestry_distinct (forest : Forest n arrays.parents) {dups : List Nat}
    (leaves : ∀ leaf ∈ dups, Leaf n arrays.parents leaf) {node : Nat} (inside : node < n)
    (distinct : node ∉ dups) :
    ancestry n arrays.parents node ⊆ (Finset.range n).filter (· ∉ dups) := by
  intro above member
  refine Finset.mem_filter.mpr ⟨forest.ancestry_subset inside member, fun isDup => ?_⟩
  by_cases same : above = node
  · exact distinct (same ▸ isDup)
  · exact forest.ancestor_not_leaf member same (leaves above isDup)

/-- The first loop chooses as many nodes as the budget allows from those that repeat no path. -/
theorem Forest.select_distinct (budget : Nat) (forest : Forest n arrays.parents)
    {order dups : List Nat} (perm : order.Perm (List.range n)) (leaves : ∀ leaf ∈ dups, Leaf n arrays.parents leaf) :
    select (ancestry n arrays.parents) budget ∅ (order.filter (fun idx => !decide (idx ∈ dups))) ⊆
        (Finset.range n).filter (· ∉ dups) ∧
      (select (ancestry n arrays.parents) budget ∅
        (order.filter (fun idx => !decide (idx ∈ dups)))).card =
          min ((Finset.range n).filter (· ∉ dups)).card budget := by
  have within : ∀ idx ∈ order.filter (fun idx => !decide (idx ∈ dups)),
      ancestry n arrays.parents idx ⊆ (Finset.range n).filter (· ∉ dups) := by
    intro idx member
    obtain ⟨listed, offered⟩ := List.mem_filter.mp member
    exact forest.ancestry_distinct leaves (List.mem_range.mp (perm.mem_iff.mp listed))
      (by simpa using offered)
  refine ⟨select_subset _ (Finset.empty_subset _) within,
    select_card forest.needs (Finset.empty_subset _) within ?_ (by simp)⟩
  intro node member
  obtain ⟨inside, distinct⟩ := Finset.mem_filter.mp member
  exact List.mem_filter.mpr ⟨perm.mem_iff.mpr (List.mem_range.mpr (Finset.mem_range.mp inside)),
    by simpa using distinct⟩

end distinct

section duplicates

variable [LinearOrder L] [Inhabited L] {n : Nat} {arrays : TreeArrays L}

/-- The leaves that the first loop passes over are those that repeat a better path. -/
theorem mem_dupLeaves (forest : Forest n arrays.parents) (holds : arrays.Holds n)
    {paths : List (Nat × List Int)} (read : leafPaths n arrays = some paths) (leaf : Nat) :
    leaf ∈ dupLeaves arrays.lps paths ↔ DuplicateLeaf n arrays leaf := by
  obtain ⟨rising, leaves, spelled⟩ := leafPaths_spec forest holds read
  have group (tokens : List Int) (other : Nat) :
      other ∈ (paths.filter (fun path => path.2 = tokens)).map Prod.fst ↔
        Leaf n arrays.parents other ∧ Spells n arrays other tokens := by
    rw [← leaves, List.mem_map, List.mem_map]
    constructor
    · rintro ⟨path, member, rfl⟩
      obtain ⟨listed, same⟩ := List.mem_filter.mp member
      exact ⟨⟨path, listed, rfl⟩, of_decide_eq_true same ▸ spelled path listed⟩
    · rintro ⟨⟨path, listed, rfl⟩, own⟩
      exact ⟨path, List.mem_filter.mpr ⟨listed, decide_eq_true ((spelled path listed).unique own)⟩, rfl⟩
  have sorted (tokens : List Int) :
      (((paths.filter (fun path => path.2 = tokens)).map Prod.fst).insertionSort
        (fun leaf other => arrays.lps.getD other default ≤ arrays.lps.getD leaf default)).tail =
      (((paths.filter (fun path => path.2 = tokens)).map Prod.fst).insertionSort
        (falling arrays.lp)).tail := by
    rfl
  have ordered (tokens : List Int) :
      ((paths.filter (fun path => path.2 = tokens)).map Prod.fst).Pairwise (· < ·) :=
    rising.sublist (List.filter_sublist.map Prod.fst)
  rw [dupLeaves, List.mem_flatMap]
  simp only [sorted, mem_tail_insertionSort arrays.lp _ (ordered _), group]
  constructor
  · rintro ⟨tokens, -, ⟨own, spells⟩, other, ⟨otherLeaf, otherSpells⟩, before⟩
    exact ⟨own, fun best => best.2 other tokens otherLeaf spells otherSpells before⟩
  · rintro ⟨own, notBest⟩
    have better : ∃ other tokens, Leaf n arrays.parents other ∧ Spells n arrays leaf tokens ∧
        Spells n arrays other tokens ∧ Precedes arrays.lp other leaf := by
      by_contra none
      push Not at none
      exact notBest ⟨own, none⟩
    obtain ⟨other, tokens, otherLeaf, spells, otherSpells, before⟩ := better
    refine ⟨tokens, ?_, ⟨own, spells⟩, other, ⟨otherLeaf, otherSpells⟩, before⟩
    obtain ⟨path, listed, rfl⟩ := List.mem_map.mp ((leaves leaf).mpr own)
    rw [List.mem_dedup, (spelled path listed).unique spells |>.symm]
    exact List.mem_map_of_mem listed

/-- The covered nodes are those on the way down to a best leaf. -/
theorem mem_coveredNodes {node : Nat} : node ∈ coveredNodes n arrays ↔
    node < n ∧ ∃ leaf, BestLeaf n arrays leaf ∧ node ∈ ancestry n arrays.parents leaf := by
  simp [coveredNodes]

/-- **Coverage pruning prefers distinct paths.** A forest over its budget is compacted to exactly as
many nodes as the budget names, with their parents, in their old order and with their parents
renumbered. When the paths down to the best leaves have that many nodes, no leaf is kept that repeats
the tokens of a better one. -/
theorem pruneTreeCoverageNp_distinct (argsort : List L → List Nat)
    (sorts : ∀ keys, ArgsortDescending keys (argsort keys)) (n budget : Nat) (arrays : TreeArrays L)
    (holds : arrays.Holds n) (forest : Forest n arrays.parents) (exceeds : budget < n) :
    ∃ kept after, pruneTreeCoverageNp argsort n arrays budget = some (budget, after) ∧
      kept.length = budget ∧ Compacted n arrays kept after ∧ Forest budget after.parents ∧
      (budget ≤ (coveredNodes n arrays).card → ∀ leaf ∈ kept, ¬ DuplicateLeaf n arrays leaf) := by
  obtain ⟨paths, kept, after, read, ran, pruned, members⟩ :=
    forest.pruneTreeCoverageNp_pruned sorts holds (Nat.not_le_of_lt exceeds)
  have exactly : kept.length = budget := pruned.exactly.trans (Nat.min_eq_right exceeds.le)
  have dups := mem_dupLeaves forest holds read
  have repeating : ∀ leaf ∈ dupLeaves arrays.lps paths, Leaf n arrays.parents leaf :=
    fun leaf isDup => ((dups leaf).mp isDup).1
  obtain ⟨distinct, count⟩ := forest.select_distinct budget (argsort_perm sorts holds) repeating
  refine ⟨kept, after, exactly ▸ ran, exactly, pruned.toCompacted,
    exactly ▸ pruned.forest forest, fun enough leaf isKept duplicate => ?_⟩
  have covered : coveredNodes n arrays ⊆
      (Finset.range n).filter (· ∉ dupLeaves arrays.lps paths) := by
    intro node member
    obtain ⟨-, best, isBest, above⟩ := mem_coveredNodes.mp member
    exact forest.ancestry_distinct repeating isBest.1.1
      (fun isDup => ((dups best).mp isDup).2 isBest) above
  -- The first loop fills the budget, so the second one adds nothing.
  rw [Nat.min_eq_right (enough.trans (Finset.card_le_card covered))] at count
  rw [members, select_of_full _ count.ge] at isKept
  exact (Finset.mem_filter.mp (distinct isKept)).2 ((dups leaf).mpr duplicate)

/-- A leaf that the first loop does not pass over is the best of its tokens. -/
theorem bestLeaf_of_not_mem (forest : Forest n arrays.parents) (holds : arrays.Holds n)
    {paths : List (Nat × List Int)} (read : leafPaths n arrays = some paths) {leaf : Nat}
    (listed : leaf ∈ paths.map Prod.fst) (kept : leaf ∉ dupLeaves arrays.lps paths) :
    BestLeaf n arrays leaf := by
  by_contra notBest
  exact kept ((mem_dupLeaves forest holds read leaf).mpr
    ⟨((leafPaths_spec forest holds read).2.1 leaf).mp listed, notBest⟩)

/-- Two equal children and a third one below a root child: with three nodes on the best paths the
second of the equal children is not kept. -/
theorem pruneTreeCoverageNp_distinct_repeated :
    ∃ kept after, pruneTreeCoverageNp stableArgsort 4 repeatedTree 3 = some (3, after) ∧
      kept.length = 3 ∧ Compacted 4 repeatedTree kept after ∧ Forest 3 after.parents ∧
      ∀ leaf ∈ kept, ¬ DuplicateLeaf 4 repeatedTree leaf := by
  obtain ⟨holds, forest, -⟩ := repeatedTree_forest
  have read : leafPaths 4 repeatedTree = some [(1, [5, 7]), (2, [5, 7]), (3, [5, 8])] := by decide
  have best : ∀ leaf ∈ [1, 3], BestLeaf 4 repeatedTree leaf := by
    intro leaf member
    exact bestLeaf_of_not_mem forest holds read (by revert leaf; decide) (by revert leaf; decide)
  have enough : 3 ≤ (coveredNodes 4 repeatedTree).card := by
    have three : ({0, 1, 3} : Finset Nat) ⊆ coveredNodes 4 repeatedTree := by
      intro node member
      rw [mem_coveredNodes]
      rcases (by simpa using member : node = 0 ∨ node = 1 ∨ node = 3) with rfl | rfl | rfl
      · exact ⟨by decide, 1, best 1 (by decide),
          forest.mem_ancestry.mpr (.single ⟨by decide, by decide⟩)⟩
      · exact ⟨by decide, 1, best 1 (by decide), forest.mem_ancestry.mpr .refl⟩
      · exact ⟨by decide, 3, best 3 (by decide), forest.mem_ancestry.mpr .refl⟩
    exact Finset.card_le_card three
  obtain ⟨kept, after, ran, count, compacted, again, distinct⟩ := pruneTreeCoverageNp_distinct
    stableArgsort stableArgsort_sorts 4 3 repeatedTree holds forest (by decide)
  exact ⟨kept, after, ran, count, compacted, again, distinct enough⟩

end duplicates

end SpecBlock.Building
