import Mathlib.Data.List.GetD
import Mathlib.Data.List.Sort
import SpecBlock.Foundation.BudgetClosure
import SpecBlock.Foundation.ParentChain
import SpecBlock.Foundation.Rows

/-!
# Pruning a tree to its budget

`_prune_tree_np` visits the nodes of an oversized tree by falling log-probability and keeps a
node with its ancestors when they fit. The six arrays of the tree are then compacted in place
and the parents renumbered. With coverage pruning on it hands over to
`_prune_tree_coverage_np`, which first passes over the leaves that repeat the tokens of a
better path and then fills what is left of the budget as before.

Log-probabilities are a linear order, which leaves out only values that are not numbers. The
sort may return equal keys in any order. A walk up the tree is given one turn more than there
are nodes, which an acyclic forest never uses up.
-/

namespace SpecBlock.Building

open Rows ParentChain BudgetClosure

variable {L : Type}

/-- The arrays of a tree under construction; entries behind the node count are unused. -/
structure TreeArrays (L : Type) where
  tokens : List Int
  parents : List Int
  lps : List L
  ranks : List Int
  blocks : List Int
  slots : List Int
  deriving DecidableEq, Repr

/-- The walk from a node up to the first kept ancestor, or past the root. -/
def climb (tnParents : List Int) (kept : List Nat) : Nat → Int → Option (List Nat)
  | 0, _ => none
  | fuel + 1, cur =>
    if 0 ≤ cur ∧ cur.toNat ∉ kept then do
      let parent ← tnParents[cur.toNat]?
      let chain ← climb tnParents kept fuel parent
      return cur.toNat :: chain
    else return []

/-- Keep candidates with their chains while they fit, up to the budget. -/
def keepChains (tnParents : List Int) (fuel budget : Nat) (skip : List Nat → Nat → Bool) :
    List Nat → List Nat → Option (List Nat)
  | [], kept => return kept
  | idx :: sortedIndices, kept =>
    if budget ≤ kept.length then return kept
    else if skip kept idx then keepChains tnParents fuel budget skip sortedIndices kept
    else do
      let chain ← climb tnParents kept fuel idx
      if kept.length + chain.length ≤ budget then
        keepChains tnParents fuel budget skip sortedIndices (kept ++ chain)
      else keepChains tnParents fuel budget skip sortedIndices kept

/-- `old_to_new.get(parent, -1)`. -/
def oldToNew (keptSorted : List Nat) (parent : Int) : Int :=
  if 0 ≤ parent then
    match keptSorted.idxOf? parent.toNat with
    | some new => new
    | none => -1
  else -1

/-- Move the kept entries of an array to its front. -/
def compactArray {β : Type} (keptSorted : List Nat) (array : List β) : List β :=
  gather keptSorted array ++ array.drop keptSorted.length

/-- Compact the arrays in place. -/
def compactArrays (keptSorted : List Nat) (arrays : TreeArrays L) : TreeArrays L where
  tokens := compactArray keptSorted arrays.tokens
  parents := (gather keptSorted arrays.parents).map (oldToNew keptSorted) ++
    arrays.parents.drop keptSorted.length
  lps := compactArray keptSorted arrays.lps
  ranks := compactArray keptSorted arrays.ranks
  blocks := compactArray keptSorted arrays.blocks
  slots := compactArray keptSorted arrays.slots

/-- Sort the kept nodes and compact the arrays. -/
def compactTree (kept : List Nat) (arrays : TreeArrays L) : Nat × TreeArrays L :=
  let keptSorted := kept.insertionSort (· ≤ ·)
  (keptSorted.length, compactArrays keptSorted arrays)

/-- The leaves with the tokens on the way down to them. -/
def leafPaths (nNodes : Nat) (arrays : TreeArrays L) : Option (List (Nat × List Int)) :=
  let isParent := (List.range nNodes).filterMap (fun node => arrays.parents[node]?)
  let leaves : List Nat := (List.range nNodes).filter (fun node => (node : Int) ∉ isParent)
  leaves.mapM (fun leaf : Nat => do
    let chain ← climb arrays.parents [] (nNodes + 1) leaf
    return (leaf, (gather chain arrays.tokens).reverse))

/-- The leaves that repeat the tokens of a path at least as likely. Python's sort is stable. -/
def dupLeaves [LinearOrder L] [Inhabited L] (tnLps : List L) (paths : List (Nat × List Int)) :
    List Nat :=
  (paths.map Prod.snd).dedup.flatMap (fun tokens =>
    (((paths.filter (fun path => path.2 = tokens)).map Prod.fst).insertionSort (fun leaf other =>
      tnLps.getD other default ≤ tnLps.getD leaf default)).tail)

/-- `_prune_tree_coverage_np`. The first pass adds chains of leaves that no better leaf repeats, the
second fills up with what is left. A parent link out of the arrays is an error. -/
def pruneTreeCoverageNp [LinearOrder L] [Inhabited L] (argsort : List L → List Nat) (nNodes : Nat)
    (arrays : TreeArrays L) (budget : Nat) : Option (Nat × TreeArrays L) :=
  if nNodes ≤ budget then return (nNodes, arrays)
  else do
    let paths ← leafPaths nNodes arrays
    let dups := dupLeaves arrays.lps paths
    let sortedIndices := argsort (arrays.lps.take nNodes)
    let distinct ← keepChains arrays.parents (nNodes + 1) budget (fun _ idx => idx ∈ dups)
      sortedIndices []
    let kept ← keepChains arrays.parents (nNodes + 1) budget (fun kept idx => idx ∈ kept)
      sortedIndices distinct
    return compactTree kept arrays

/-- `_prune_tree_np`; `argsort` sorts by falling value. -/
def pruneTreeNp [LinearOrder L] [Inhabited L] (coveragePrune : Bool) (argsort : List L → List Nat)
    (nNodes : Nat) (arrays : TreeArrays L) (budget : Nat) : Option (Nat × TreeArrays L) :=
  if nNodes ≤ budget then return (nNodes, arrays)
  else if coveragePrune then pruneTreeCoverageNp argsort nNodes arrays budget
  else do
    let sortedIndices := argsort (arrays.lps.take nNodes)
    let kept ← keepChains arrays.parents (nNodes + 1) budget (fun _ _ => false) sortedIndices []
    return compactTree kept arrays

/-- An order of the positions by falling value; equal values stand in any order. -/
structure ArgsortDescending [LinearOrder L] (keys : List L) (order : List Nat) : Prop where
  positions : order.Perm (List.range keys.length)
  falling : order.Pairwise (fun first second => ∀ high ∈ keys[first]?, ∀ low ∈ keys[second]?,
    low ≤ high)

/-- The parent of a node of a tree of `n` nodes. -/
def Link (n : Nat) (parents : List Int) (node above : Nat) : Prop :=
  node < n ∧ parents[node]? = some (above : Int)

/-- A forest: each of the first `n` parents is `-1` or one of the nodes, and no node is its
own ancestor. -/
structure Forest (n : Nat) (parents : List Int) : Prop where
  inside : ∀ node < n, ∃ parent, parents[node]? = some parent ∧ -1 ≤ parent ∧ parent < n
  acyclic : Acyclic (Link n parents)

/-- A node with its ancestors. -/
noncomputable def ancestry (n : Nat) (parents : List Int) (node : Nat) : Finset Nat :=
  open Classical in
  (insert node (Finset.range n)).filter (Relation.ReflTransGen (Link n parents) node)

namespace Forest

variable {n : Nat} {parents : List Int} {node above : Nat}

theorem link_inside (forest : Forest n parents) (link : Link n parents node above) : above < n := by
  obtain ⟨parent, read, -, below⟩ := forest.inside node link.1
  rw [link.2, Option.some_inj] at read
  omega

theorem parent_cases (forest : Forest n parents) (inside : node < n) :
    parents[node]? = some (-1) ∨ ∃ above, Link n parents node above := by
  obtain ⟨parent, read, low, -⟩ := forest.inside node inside
  rcases Int.lt_or_le parent 0 with negative | positive
  · exact .inl (by rw [read, show parent = -1 by omega])
  · exact .inr ⟨parent.toNat, inside, by rw [read, Int.toNat_of_nonneg positive]⟩

theorem mem_ancestry (forest : Forest n parents) :
    above ∈ ancestry n parents node ↔ Relation.ReflTransGen (Link n parents) node above := by
  simp only [ancestry, Finset.mem_filter, and_iff_right_iff_imp, Finset.mem_insert,
    Finset.mem_range]
  intro chain
  rcases chain.cases_tail with same | ⟨below, -, link⟩
  · exact .inl same
  · exact .inr (forest.link_inside link)

/-- Ancestries are closed and no two nodes are in each other's. -/
theorem needs (forest : Forest n parents) : Needs (ancestry n parents) where
  self := fun node => forest.mem_ancestry.mpr .refl
  trans := fun node above member other further => forest.mem_ancestry.mpr
    ((forest.mem_ancestry.mp member).trans (forest.mem_ancestry.mp further))
  antisymm := by
    intro node above up down
    rcases Relation.reflTransGen_iff_eq_or_transGen.mp (forest.mem_ancestry.mp up) with same | proper
    · exact same.symm
    · exact absurd (proper.trans_left (forest.mem_ancestry.mp down)) (forest.acyclic node)

theorem ancestry_subset (forest : Forest n parents) (inside : node < n) :
    ancestry n parents node ⊆ Finset.range n := by
  intro above member
  rcases (forest.mem_ancestry.mp member).cases_tail with same | ⟨below, -, link⟩
  · exact Finset.mem_range.mpr (same ▸ inside)
  · exact Finset.mem_range.mpr (forest.link_inside link)

theorem closed_link (forest : Forest n parents) {kept : Finset Nat}
    (closed : Closed (ancestry n parents) kept) (member : node ∈ kept)
    (link : Link n parents node above) : above ∈ kept :=
  closed node member (forest.mem_ancestry.mpr (.single link))

theorem ancestry_top (forest : Forest n parents) (top : parents[node]? = some (-1)) :
    ancestry n parents node = {node} := by
  ext other
  rw [forest.mem_ancestry, Finset.mem_singleton]
  constructor
  · intro chain
    rcases chain.cases_head with same | ⟨next, ⟨-, read⟩, -⟩
    · exact same.symm
    · rw [top, Option.some_inj] at read
      omega
  · rintro rfl
    exact .refl

/-- The ancestry of a node is itself with the ancestry of its parent. -/
theorem ancestry_link (forest : Forest n parents) (link : Link n parents node above) :
    ancestry n parents node = insert node (ancestry n parents above) := by
  ext other
  rw [Finset.mem_insert, forest.mem_ancestry, forest.mem_ancestry]
  constructor
  · intro chain
    rcases chain.cases_head with same | ⟨next, ⟨-, read⟩, further⟩
    · exact .inl same.symm
    · rw [link.2, Option.some_inj, Int.natCast_inj] at read
      exact .inr (read ▸ further)
  · rintro (rfl | further)
    · exact .refl
    · exact further.head link

theorem not_mem_ancestry (forest : Forest n parents) (link : Link n parents node above) :
    node ∉ ancestry n parents above := fun member =>
  forest.acyclic node (.head' link (forest.mem_ancestry.mp member))

/-- The walk up from a node meets the ancestors that are not kept, each once. -/
theorem climb_chain (forest : Forest n parents) {kept : List Nat}
    (closed : Closed (ancestry n parents) kept.toFinset) (node : Nat) (inside : node < n) :
    ∃ chain, (∀ fuel, chain.length < fuel → climb parents kept fuel node = some chain) ∧
      chain.Nodup ∧ ∀ other, other ∈ chain ↔ other ∈ ancestry n parents node ∧ other ∉ kept := by
  apply (wellFoundedOn_of_acyclic (Set.finite_lt_nat n) forest.acyclic.reverse).induction inside
  intro node inside ih
  by_cases isKept : node ∈ kept
  · refine ⟨[], ?_, List.nodup_nil, fun other => ?_⟩
    · intro fuel enough
      obtain ⟨fuel, rfl⟩ := Nat.exists_eq_add_one.mpr enough
      simp [climb, isKept]
    · have held : other ∈ ancestry n parents node → other ∈ kept := fun member =>
        List.mem_toFinset.mp (closed node (List.mem_toFinset.mpr isKept) member)
      simpa using held
  · have walk (fuel : Nat) (parent : Int) (read : parents[node]? = some parent) :
        climb parents kept (fuel + 1) node = (climb parents kept fuel parent).map (node :: ·) := by
      have here : (0 : Int) ≤ node ∧ ((node : Int)).toNat ∉ kept := ⟨by omega, isKept⟩
      rw [climb, if_pos here]
      simp [read, Option.map_eq_bind]
    rcases forest.parent_cases inside with top | ⟨above, link⟩
    · -- The walk goes past the root.
      refine ⟨[node], ?_, List.nodup_singleton node, fun other => ?_⟩
      · intro fuel enough
        obtain ⟨fuel, rfl⟩ := Nat.exists_eq_add_one.mpr (by omega : 0 < fuel)
        obtain ⟨fuel, rfl⟩ := Nat.exists_eq_add_one.mpr (by simpa using enough : 0 < fuel)
        rw [walk _ _ top]
        rfl
      · rw [forest.ancestry_top top, Finset.mem_singleton, List.mem_singleton]
        exact ⟨fun same => ⟨same, same ▸ isKept⟩, fun both => both.1⟩
    · obtain ⟨chain, reached, distinct, members⟩ :=
        ih above (forest.link_inside link) (.single link)
      refine ⟨node :: chain, ?_, List.nodup_cons.mpr ⟨?_, distinct⟩, fun other => ?_⟩
      · intro fuel enough
        rw [List.length_cons] at enough
        obtain ⟨fuel, rfl⟩ := Nat.exists_eq_add_one.mpr (by omega : 0 < fuel)
        rw [walk _ _ link.2, reached fuel (by omega)]
        rfl
      · exact fun member => forest.not_mem_ancestry link ((members node).mp member).1
      · rw [List.mem_cons, members, forest.ancestry_link link, Finset.mem_insert, or_and_right]
        exact or_congr_left ⟨fun same => ⟨same, same ▸ isKept⟩, fun both => both.1⟩

/-- The walk up ends within as many turns as there are nodes. -/
theorem climb_ancestry (forest : Forest n parents) {kept : List Nat}
    (closed : Closed (ancestry n parents) kept.toFinset) (distinct : kept.Nodup)
    (inside : node < n) :
    ∃ chain, climb parents kept (n + 1) node = some chain ∧ (kept ++ chain).Nodup ∧
      (kept ++ chain).toFinset = kept.toFinset ∪ ancestry n parents node := by
  obtain ⟨chain, reached, distinctChain, members⟩ := forest.climb_chain closed node inside
  have short : chain.length ≤ n := by
    have within : chain ⊆ List.range n := fun other member => List.mem_range.mpr
      (Finset.mem_range.mp (forest.ancestry_subset inside ((members other).mp member).1))
    simpa using (distinctChain.subperm within).length_le
  refine ⟨chain, reached (n + 1) (by omega), ?_, ?_⟩
  · refine List.nodup_append.mpr ⟨distinct, distinctChain, ?_⟩
    rintro other inKept again inChain rfl
    exact ((members other).mp inChain).2 inKept
  · ext other
    simp only [List.toFinset_append, Finset.mem_union, List.mem_toFinset, members]
    tauto

/-- The loop makes the greedy choice among the candidates it does not skip; it may also skip
what is kept already. -/
theorem keepChains_select (forest : Forest n parents) (budget : Nat)
    (skip : List Nat → Nat → Bool) (passed : Nat → Bool)
    (skips : ∀ kept idx, passed idx = true → skip kept idx = true)
    (harmless : ∀ kept idx, skip kept idx = true → passed idx = true ∨ idx ∈ kept)
    {candidates : List Nat} (inside : ∀ idx ∈ candidates, idx < n) {kept : List Nat}
    (closed : Closed (ancestry n parents) kept.toFinset) (distinct : kept.Nodup) :
    ∃ final, keepChains parents (n + 1) budget skip candidates kept = some final ∧ final.Nodup ∧
      final.toFinset = select (ancestry n parents) budget kept.toFinset
        (candidates.filter (fun idx => !passed idx)) := by
  induction candidates generalizing kept with
  | nil => exact ⟨kept, rfl, distinct, rfl⟩
  | cons idx rest ih =>
    have insideRest : ∀ other ∈ rest, other < n := fun other member =>
      inside other (List.mem_cons_of_mem idx member)
    have size := List.toFinset_card_of_nodup distinct
    unfold keepChains
    by_cases full : budget ≤ kept.length
    · rw [if_pos full]
      exact ⟨kept, rfl, distinct, (select_of_full _ (size ▸ full)).symm⟩
    · rw [if_neg full]
      by_cases skipped : skip kept idx = true
      · rw [if_pos skipped]
        obtain ⟨final, ran, distinctFinal, chosen⟩ := ih insideRest closed distinct
        refine ⟨final, ran, distinctFinal, chosen.trans ?_⟩
        by_cases isPassed : passed idx = true
        · rw [List.filter_cons_of_neg (by simp [isPassed])]
        · have held := (harmless kept idx skipped).resolve_left isPassed
          rw [List.filter_cons_of_pos (by simp [isPassed])]
          unfold select
          rw [List.foldl_cons, visit_of_mem closed (List.mem_toFinset.mpr held)]
      · have offered : passed idx ≠ true := fun isPassed => skipped (skips kept idx isPassed)
        obtain ⟨chain, walked, distinctBoth, added⟩ :=
          forest.climb_ancestry closed distinct (inside idx List.mem_cons_self)
        have total : (kept.toFinset ∪ ancestry n parents idx).card = kept.length + chain.length := by
          rw [← added, List.toFinset_card_of_nodup distinctBoth, List.length_append]
        have visited : Closed (ancestry n parents)
            (visit (ancestry n parents) budget kept.toFinset idx) :=
          visit_closed forest.needs closed idx
        rw [if_neg skipped, List.filter_cons_of_pos (by simp [offered])]
        unfold select
        rw [List.foldl_cons]
        unfold visit at visited ⊢
        rw [total] at visited ⊢
        by_cases fits : kept.length + chain.length ≤ budget
        · rw [if_pos fits, ← added] at visited ⊢
          obtain ⟨final, ran, done⟩ := ih insideRest visited distinctBoth
          refine ⟨final, ?_, done⟩
          simp only [walked, Option.bind_eq_bind, Option.bind_some, if_pos fits]
          exact ran
        · rw [if_neg fits] at visited ⊢
          obtain ⟨final, ran, done⟩ := ih insideRest closed distinct
          refine ⟨final, ?_, done⟩
          simp only [walked, Option.bind_eq_bind, Option.bind_some, if_neg fits]
          exact ran

end Forest

/-- The arrays have entries for `n` nodes. -/
structure TreeArrays.Holds (n : Nat) (arrays : TreeArrays L) : Prop where
  tokens : n ≤ arrays.tokens.length
  parents : n ≤ arrays.parents.length
  lps : n ≤ arrays.lps.length
  ranks : n ≤ arrays.ranks.length
  blocks : n ≤ arrays.blocks.length
  slots : n ≤ arrays.slots.length

/-- A tree was compacted to some of its nodes, `kept` listing their old positions: they are in
their old order, parents are kept, the fields of a node have moved together, and a new parent
is the new position of the old one. -/
structure Compacted (n : Nat) (before : TreeArrays L) (kept : List Nat) (after : TreeArrays L) :
    Prop where
  ascending : kept.Pairwise (· < ·)
  inside : ∀ node ∈ kept, node < n
  closed : ∀ node ∈ kept, ∀ above, Link n before.parents node above → above ∈ kept
  moved : ∀ new old : Nat, kept[new]? = some old → after.tokens[new]? = before.tokens[old]? ∧
    after.lps[new]? = before.lps[old]? ∧ after.ranks[new]? = before.ranks[old]? ∧
    after.blocks[new]? = before.blocks[old]? ∧ after.slots[new]? = before.slots[old]?
  relinked : ∀ new old : Nat, kept[new]? = some old →
    (before.parents[old]? = some (-1) ∧ after.parents[new]? = some (-1)) ∨
    ∃ above newAbove : Nat, Link n before.parents old above ∧ kept[newAbove]? = some above ∧
      after.parents[new]? = some (newAbove : Int)

/-- A tree was compacted to as many nodes as the budget allows. -/
structure Pruned (n budget : Nat) (before : TreeArrays L) (kept : List Nat) (after : TreeArrays L) :
    Prop extends Compacted n before kept after where
  exactly : kept.length = min n budget

section compaction

variable {n budget : Nat} {before after : TreeArrays L} {kept : List Nat}

theorem compactArray_getElem? {β : Type} {array : List β} (inside : ∀ node ∈ kept, node < array.length)
    {new old : Nat} (read : kept[new]? = some old) : (compactArray kept array)[new]? = array[old]? := by
  have long : (gather kept array).length = kept.length := gather_length kept array inside
  have within : new < kept.length := (List.getElem?_eq_some_iff.mp read).1
  unfold compactArray
  rw [List.getElem?_append_left (by omega), gather_getElem? kept array inside, read]
  rfl

theorem oldToNew_kept (distinct : kept.Nodup) {new above : Nat} (read : kept[new]? = some above) :
    oldToNew kept above = new := by
  have found : kept.idxOf? above = some new := by
    obtain ⟨inside, here⟩ := List.getElem?_eq_some_iff.mp read
    refine List.idxOf?_eq_some_iff.mpr ⟨inside, here, fun earlier before same => ?_⟩
    have again := (List.Nodup.getElem_inj_iff distinct).mp (same.trans here.symm)
    omega
  simp [oldToNew, found]

theorem compactArrays_compacted (holds : before.Holds n) (forest : Forest n before.parents)
    (ascending : kept.Pairwise (· < ·)) (inside : ∀ node ∈ kept, node < n)
    (closed : ∀ node ∈ kept, ∀ above, Link n before.parents node above → above ∈ kept) :
    Compacted n before kept (compactArrays kept before) := by
  refine ⟨ascending, inside, closed, fun new old read => ?_, fun new old read => ?_⟩
  · have wide {β : Type} {array : List β} (long : n ≤ array.length) :
        (compactArray kept array)[new]? = array[old]? :=
      compactArray_getElem? (fun node member => Nat.lt_of_lt_of_le (inside node member) long) read
    exact ⟨wide holds.tokens, wide holds.lps, wide holds.ranks, wide holds.blocks,
      wide holds.slots⟩
  · have member := List.mem_of_getElem? read
    have wide : ∀ node ∈ kept, node < before.parents.length := fun node member =>
      Nat.lt_of_lt_of_le (inside node member) holds.parents
    have long := gather_length kept before.parents wide
    have within : new < kept.length := (List.getElem?_eq_some_iff.mp read).1
    have written : (compactArrays kept before).parents[new]? =
        (before.parents[old]?).map (oldToNew kept) := by
      unfold compactArrays
      rw [List.getElem?_append_left (by rw [List.length_map]; omega), List.getElem?_map,
        gather_getElem? kept before.parents wide, read]
      rfl
    rcases forest.parent_cases (inside old member) with top | ⟨above, link⟩
    · exact .inl ⟨top, by rw [written, top]; rfl⟩
    · obtain ⟨newAbove, here⟩ := List.mem_iff_getElem?.mp (closed old member above link)
      refine .inr ⟨above, newAbove, link, here, ?_⟩
      rw [written, link.2, Option.map_some, oldToNew_kept (ascending.imp Nat.ne_of_lt) here]

theorem pruned_all (forest : Forest n before.parents) (fits : n ≤ budget) :
    Pruned n budget before (List.range n) before := by
  have same {new old : Nat} (read : (List.range n)[new]? = some old) : new = old := by
    obtain ⟨inside, here⟩ := List.getElem?_eq_some_iff.mp read
    simpa using here
  refine ⟨⟨List.pairwise_lt_range, by simp, ?_, ?_, ?_⟩, by simp [fits]⟩
  · intro node member above link
    exact List.mem_range.mpr (forest.link_inside link)
  · intro new old read
    simp [same read]
  · intro new old read
    have inside : old < n := List.mem_range.mp (List.mem_of_getElem? read)
    rw [same read]
    rcases forest.parent_cases inside with top | ⟨above, link⟩
    · exact .inl ⟨top, top⟩
    · exact .inr ⟨above, above, link, List.getElem?_range (forest.link_inside link), link.2⟩

theorem Compacted.forest (compacted : Compacted n before kept after)
    (forest : Forest n before.parents) : Forest kept.length after.parents := by
  have lifts : ∀ node above, Link kept.length after.parents node above →
      ∀ old ∈ kept[node]?, ∃ oldAbove ∈ kept[above]?, Link n before.parents old oldAbove := by
    rintro node above ⟨-, read⟩ old here
    rcases compacted.relinked node old here with ⟨-, top⟩ | ⟨oldAbove, newAbove, link, found, moved⟩
    · rw [top, Option.some_inj] at read
      omega
    · rw [moved, Option.some_inj, Int.natCast_inj] at read
      exact ⟨oldAbove, read ▸ found, link⟩
  refine ⟨fun node inside => ?_, fun node chain => ?_⟩
  · rcases compacted.relinked node kept[node] (List.getElem?_eq_getElem inside) with
      ⟨-, top⟩ | ⟨oldAbove, newAbove, link, found, moved⟩
    · exact ⟨-1, top, by omega, by omega⟩
    · have bound := (List.getElem?_eq_some_iff.mp found).1
      exact ⟨newAbove, moved, by omega, by omega⟩
  · have up : ∀ above, Relation.TransGen (Link kept.length after.parents) node above →
        ∀ old ∈ kept[node]?, ∃ oldAbove ∈ kept[above]?,
          Relation.TransGen (Link n before.parents) old oldAbove := by
      intro above chain old here
      induction chain with
      | single link =>
        obtain ⟨oldAbove, found, oldLink⟩ := lifts _ _ link old here
        exact ⟨oldAbove, found, .single oldLink⟩
      | tail _ link ih =>
        obtain ⟨middle, atMiddle, oldChain⟩ := ih
        obtain ⟨oldAbove, found, oldLink⟩ := lifts _ _ link middle atMiddle
        exact ⟨oldAbove, found, oldChain.tail oldLink⟩
    obtain ⟨next, ⟨inside, -⟩, -⟩ := Relation.TransGen.head'_iff.mp chain
    have here := List.getElem?_eq_getElem inside
    obtain ⟨oldAbove, found, oldChain⟩ := up node chain kept[node] here
    obtain rfl : kept[node] = oldAbove := Option.some.inj (here.symm.trans found)
    exact forest.acyclic _ oldChain

end compaction

section selection

variable [LinearOrder L] {n budget : Nat} {arrays : TreeArrays L} {argsort : List L → List Nat}

theorem argsort_perm (sorts : ∀ keys, ArgsortDescending keys (argsort keys))
    (holds : arrays.Holds n) : (argsort (arrays.lps.take n)).Perm (List.range n) := by
  have positions := (sorts (arrays.lps.take n)).positions
  rwa [List.length_take, Nat.min_eq_left holds.lps] at positions

variable [Inhabited L]

/-- The log-probability of a node. -/
def TreeArrays.lp (arrays : TreeArrays L) (node : Nat) : L := arrays.lps.getD node default

/-- The nodes with fewer than a budget of nodes above them. -/
def topBudget (n budget : Nat) (arrays : TreeArrays L) : List Nat :=
  (List.range n).filter (fun node =>
    ((List.range n).filter (fun other => arrays.lp node < arrays.lp other)).length < budget)

/-- Log-probabilities fall along every link and no two are the same. -/
structure StrictlyFalling (n : Nat) (arrays : TreeArrays L) : Prop where
  links : ∀ node above, Link n arrays.parents node above → arrays.lp node < arrays.lp above
  distinct : (arrays.lps.take n).Nodup

omit [LinearOrder L] in
theorem TreeArrays.Holds.lp_eq (holds : arrays.Holds n) {node : Nat} (inside : node < n) :
    (arrays.lps.take n)[node]? = some (arrays.lp node) := by
  have long := holds.lps
  rw [List.getElem?_take, if_pos inside, TreeArrays.lp, List.getD_eq_getElem _ _ (by omega),
    List.getElem?_eq_getElem]

theorem StrictlyFalling.injective (falling : StrictlyFalling n arrays) (holds : arrays.Holds n)
    {node other : Nat} (inside : node < n) (otherInside : other < n)
    (same : arrays.lp node = arrays.lp other) : node = other := by
  have read := holds.lp_eq inside
  have otherRead := holds.lp_eq otherInside
  obtain ⟨bound, here⟩ := List.getElem?_eq_some_iff.mp read
  obtain ⟨otherBound, there⟩ := List.getElem?_eq_some_iff.mp otherRead
  exact (List.Nodup.getElem_inj_iff falling.distinct).mp (here.trans (same.trans there.symm))

/-- Distinct log-probabilities fall strictly along the sorted positions. -/
theorem argsort_falling (sorts : ∀ keys, ArgsortDescending keys (argsort keys))
    (holds : arrays.Holds n) (falling : StrictlyFalling n arrays) :
    (argsort (arrays.lps.take n)).Pairwise (fun first second => arrays.lp second < arrays.lp first) := by
  have perm := argsort_perm sorts holds
  have distinct : (argsort (arrays.lps.take n)).Nodup := perm.nodup_iff.mpr List.nodup_range
  refine ((sorts _).falling.and distinct).imp_of_mem fun {first second} inFirst inSecond both => ?_
  have insideFirst := List.mem_range.mp (perm.mem_iff.mp inFirst)
  have insideSecond := List.mem_range.mp (perm.mem_iff.mp inSecond)
  refine lt_of_le_of_ne (both.1 _ (holds.lp_eq insideFirst) _ (holds.lp_eq insideSecond)) ?_
  intro same
  exact both.2 (falling.injective holds insideSecond insideFirst same).symm

theorem StrictlyFalling.ancestor (falling : StrictlyFalling n arrays) {node above : Nat}
    (chain : Relation.TransGen (Link n arrays.parents) node above) :
    arrays.lp node < arrays.lp above := by
  induction chain with
  | single link => exact falling.links _ _ link
  | tail _ link ih => exact ih.trans (falling.links _ _ link)

/-- With strictly falling log-probabilities the greedy choice is the top of the budget. -/
theorem select_topBudget (sorts : ∀ keys, ArgsortDescending keys (argsort keys))
    (holds : arrays.Holds n) (forest : Forest n arrays.parents)
    (falling : StrictlyFalling n arrays) (node : Nat) :
    node ∈ select (ancestry n arrays.parents) budget ∅ (argsort (arrays.lps.take n)) ↔
      node ∈ topBudget n budget arrays := by
  have perm := argsort_perm sorts holds
  have sorted := argsort_falling sorts holds falling
  rw [select_of_sorted forest.needs (perm.nodup_iff.mpr List.nodup_range) ?_, List.mem_toFinset]
  · have count : ((argsort (arrays.lps.take n)).filter
        (fun other => decide (arrays.lp node < arrays.lp other))).length =
          ((List.range n).filter (fun other => decide (arrays.lp node < arrays.lp other))).length :=
      (perm.filter _).length_eq
    simp only [topBudget, List.mem_filter, decide_eq_true_eq]
    constructor
    · intro taken
      have member := List.mem_of_mem_take taken
      exact ⟨perm.mem_iff.mp member, count ▸ (mem_take_iff arrays.lp sorted member budget).mp taken⟩
    · rintro ⟨inside, few⟩
      exact (mem_take_iff arrays.lp sorted (perm.mem_iff.mpr inside) budget).mpr (count ▸ few)
  · -- An ancestor has a higher log-probability, so it does not come later.
    intro before candidate after cut above member
    have inCandidates : candidate ∈ argsort (arrays.lps.take n) := by rw [cut]; simp
    have inside := List.mem_range.mp (perm.mem_iff.mp inCandidates)
    rcases Relation.reflTransGen_iff_eq_or_transGen.mp (forest.mem_ancestry.mp member) with
      rfl | proper
    · exact Finset.mem_insert_self _ _
    · have higher := falling.ancestor proper
      have visited : above ∈ argsort (arrays.lps.take n) :=
        perm.mem_iff.mpr (List.mem_range.mpr (Finset.mem_range.mp (forest.ancestry_subset inside member)))
      rw [cut] at visited sorted
      rcases List.mem_append.mp visited with earlier | later
      · exact Finset.mem_insert_of_mem (List.mem_toFinset.mpr earlier)
      · rcases List.mem_cons.mp later with rfl | behind
        · exact Finset.mem_insert_self _ _
        · have below := (List.pairwise_cons.mp (List.pairwise_append.mp sorted).2.1).1 above behind
          exact absurd below higher.asymm

end selection

section pruning

variable {n budget : Nat} {arrays : TreeArrays L} {argsort : List L → List Nat}

theorem Forest.leafPaths_total (forest : Forest n arrays.parents) :
    ∃ paths, leafPaths n arrays = some paths := by
  have each (leaves : List Nat) (inside : ∀ leaf ∈ leaves, leaf < n) :
      ∃ paths, leaves.mapM (fun leaf : Nat => do
        let chain ← climb arrays.parents [] (n + 1) leaf
        return (leaf, (gather chain arrays.tokens).reverse)) = some paths := by
    induction leaves with
    | nil => exact ⟨[], rfl⟩
    | cons leaf rest ih =>
      have none : Closed (ancestry n arrays.parents) ([] : List Nat).toFinset := by simp [Closed]
      obtain ⟨chain, walked, -⟩ := forest.climb_ancestry none List.nodup_nil
        (inside leaf List.mem_cons_self)
      obtain ⟨paths, others⟩ := ih
        (fun other member => inside other (List.mem_cons_of_mem leaf member))
      exact ⟨_, by rw [List.mapM_cons, walked, others]; rfl⟩
  exact each _ (fun leaf member => List.mem_range.mp (List.mem_filter.mp member).1)

/-- Visiting every node chooses as many as the budget allows and keeps parents. -/
theorem Forest.select_exactly [LinearOrder L] (forest : Forest n arrays.parents)
    (sorts : ∀ keys, ArgsortDescending keys (argsort keys)) (holds : arrays.Holds n)
    {kept : Finset Nat} (inside : kept ⊆ Finset.range n) (fits : kept.card ≤ budget) :
    (select (ancestry n arrays.parents) budget kept (argsort (arrays.lps.take n))).card =
      min n budget := by
  have perm := argsort_perm sorts holds
  have within : ∀ node ∈ argsort (arrays.lps.take n),
      ancestry n arrays.parents node ⊆ Finset.range n := fun node member =>
    forest.ancestry_subset (List.mem_range.mp (perm.mem_iff.mp member))
  have covered : ∀ node ∈ Finset.range n, node ∈ argsort (arrays.lps.take n) := fun node member =>
    perm.mem_iff.mpr (List.mem_range.mpr (Finset.mem_range.mp member))
  rw [select_card forest.needs inside within covered fits, Finset.card_range]

/-- Nodes chosen so far: distinct, with their ancestors, and within the budget. -/
structure Choice (n budget : Nat) (parents : List Int) (kept : List Nat) : Prop where
  distinct : kept.Nodup
  closed : Closed (ancestry n parents) kept.toFinset
  inside : kept.toFinset ⊆ Finset.range n
  fits : kept.toFinset.card ≤ budget

theorem Choice.none (n budget : Nat) (parents : List Int) : Choice n budget parents [] :=
  ⟨List.nodup_nil, by simp [Closed], by simp, by simp⟩

theorem Forest.compactTree_pruned (forest : Forest n arrays.parents) (holds : arrays.Holds n)
    {kept : List Nat} (choice : Choice n budget arrays.parents kept)
    (exactly : kept.toFinset.card = min n budget) :
    ∃ keptSorted, compactTree kept arrays = (keptSorted.length, compactArrays keptSorted arrays) ∧
      Pruned n budget arrays keptSorted (compactArrays keptSorted arrays) ∧
      ∀ node, node ∈ keptSorted ↔ node ∈ kept.toFinset := by
  have perm := List.perm_insertionSort (· ≤ ·) kept
  have members : ∀ node, node ∈ kept.insertionSort (· ≤ ·) ↔ node ∈ kept.toFinset := fun node =>
    perm.mem_iff.trans List.mem_toFinset.symm
  have ascending : (kept.insertionSort (· ≤ ·)).Pairwise (· < ·) :=
    ((List.pairwise_insertionSort (· ≤ ·) kept).and (perm.nodup_iff.mpr choice.distinct)).imp
      (fun both => Nat.lt_of_le_of_ne both.1 both.2)
  refine ⟨_, rfl, ⟨compactArrays_compacted holds forest ascending ?_ ?_, ?_⟩, members⟩
  · intro node member
    exact Finset.mem_range.mp (choice.inside ((members node).mp member))
  · intro node member above link
    exact (members above).mpr (forest.closed_link choice.closed ((members node).mp member) link)
  · rw [perm.length_eq, ← List.toFinset_card_of_nodup choice.distinct, exactly]

variable [LinearOrder L]

/-- The loop over the sorted nodes extends a choice greedily. -/
theorem Choice.keepChains {kept : List Nat} (choice : Choice n budget arrays.parents kept)
    (forest : Forest n arrays.parents) (sorts : ∀ keys, ArgsortDescending keys (argsort keys))
    (holds : arrays.Holds n) (skip : List Nat → Nat → Bool) (passed : Nat → Bool)
    (skips : ∀ kept idx, passed idx = true → skip kept idx = true)
    (harmless : ∀ kept idx, skip kept idx = true → passed idx = true ∨ idx ∈ kept) :
    ∃ final, Building.keepChains arrays.parents (n + 1) budget skip (argsort (arrays.lps.take n))
        kept = some final ∧ Choice n budget arrays.parents final ∧
      final.toFinset = select (ancestry n arrays.parents) budget kept.toFinset
        ((argsort (arrays.lps.take n)).filter (fun idx => !passed idx)) := by
  have nodes : ∀ idx ∈ argsort (arrays.lps.take n), idx < n := fun idx member =>
    List.mem_range.mp ((argsort_perm sorts holds).mem_iff.mp member)
  obtain ⟨final, ran, distinct, chosen⟩ :=
    forest.keepChains_select budget skip passed skips harmless nodes choice.closed choice.distinct
  refine ⟨final, ran, ⟨distinct, ?_, ?_, ?_⟩, chosen⟩ <;> rw [chosen]
  · exact select_closed forest.needs _ choice.closed
  · refine select_subset _ choice.inside fun idx member => forest.ancestry_subset (nodes idx ?_)
    exact (List.mem_filter.mp member).1
  · exact select_card_le _ choice.fits

theorem Choice.keepAll {kept : List Nat} (choice : Choice n budget arrays.parents kept)
    (forest : Forest n arrays.parents) (sorts : ∀ keys, ArgsortDescending keys (argsort keys))
    (holds : arrays.Holds n) (skip : List Nat → Nat → Bool)
    (harmless : ∀ kept idx, skip kept idx = true → idx ∈ kept) :
    ∃ final, Building.keepChains arrays.parents (n + 1) budget skip (argsort (arrays.lps.take n))
        kept = some final ∧ Choice n budget arrays.parents final ∧
      final.toFinset = select (ancestry n arrays.parents) budget kept.toFinset
        (argsort (arrays.lps.take n)) ∧ final.toFinset.card = min n budget := by
  obtain ⟨final, ran, choiceFinal, chosen⟩ := choice.keepChains forest sorts holds skip
    (fun _ => false) (by simp) (fun kept idx skipped => .inr (harmless kept idx skipped))
  rw [List.filter_eq_self.mpr (by simp)] at chosen
  refine ⟨final, ran, choiceFinal, chosen, ?_⟩
  rw [chosen]
  exact forest.select_exactly sorts holds choice.inside choice.fits

variable [Inhabited L]

/-- Coverage pruning fills the budget too: it makes the greedy choice among the nodes that repeat no
path, and then among all nodes. -/
theorem Forest.pruneTreeCoverageNp_pruned (forest : Forest n arrays.parents)
    (sorts : ∀ keys, ArgsortDescending keys (argsort keys)) (holds : arrays.Holds n)
    (exceeds : ¬ n ≤ budget) :
    ∃ paths kept after, leafPaths n arrays = some paths ∧
      pruneTreeCoverageNp argsort n arrays budget = some (kept.length, after) ∧
      Pruned n budget arrays kept after ∧
      ∀ node, node ∈ kept ↔ node ∈ select (ancestry n arrays.parents) budget
        (select (ancestry n arrays.parents) budget ∅ ((argsort (arrays.lps.take n)).filter
          (fun idx => !decide (idx ∈ dupLeaves arrays.lps paths)))) (argsort (arrays.lps.take n)) := by
  obtain ⟨paths, read⟩ := forest.leafPaths_total
  obtain ⟨first, ranFirst, choiceFirst, chosenFirst⟩ :=
    (Choice.none n budget arrays.parents).keepChains forest sorts holds
      (fun _ idx => decide (idx ∈ dupLeaves arrays.lps paths))
      (fun idx => decide (idx ∈ dupLeaves arrays.lps paths)) (fun _ _ isDup => isDup)
      (fun _ _ isDup => .inl isDup)
  obtain ⟨kept, ran, choice, chosen, exactly⟩ := choiceFirst.keepAll forest sorts holds
    (fun kept idx => decide (idx ∈ kept)) (fun _ _ isKept => of_decide_eq_true isKept)
  obtain ⟨keptSorted, compacted, pruned, members⟩ := forest.compactTree_pruned holds choice exactly
  refine ⟨paths, keptSorted, _, read, ?_, pruned, fun node => ?_⟩
  · rw [← compacted]
    simp only [pruneTreeCoverageNp, if_neg exceeds, read, ranFirst, ran, Option.bind_eq_bind,
      Option.bind_some, Option.pure_def]
  · rw [members, chosen, chosenFirst]
    rfl

/-- Without coverage pruning a tree over its budget is compacted to the greedy choice. -/
theorem Forest.pruneTreeNp_greedy (forest : Forest n arrays.parents)
    (sorts : ∀ keys, ArgsortDescending keys (argsort keys)) (holds : arrays.Holds n)
    (exceeds : ¬ n ≤ budget) :
    ∃ kept, pruneTreeNp false argsort n arrays budget =
        some (kept.length, compactArrays kept arrays) ∧
      Pruned n budget arrays kept (compactArrays kept arrays) ∧
      (StrictlyFalling n arrays → ∀ node, node ∈ kept ↔ node ∈ topBudget n budget arrays) := by
  obtain ⟨kept, ran, choice, chosen, exactly⟩ :=
    (Choice.none n budget arrays.parents).keepAll forest sorts holds (fun _ _ => false) (by simp)
  obtain ⟨keptSorted, compacted, pruned, members⟩ := forest.compactTree_pruned holds choice exactly
  refine ⟨keptSorted, ?_, pruned, fun falling node => ?_⟩
  · rw [← compacted]
    simp [pruneTreeNp, exceeds, ran]
  · rw [members, chosen]
    exact select_topBudget sorts holds forest falling node

/-- Pruning keeps exactly as many nodes as the budget allows and leaves a forest. Without
coverage pruning and with strictly falling log-probabilities it keeps the top of the budget. -/
theorem pruneTreeNp_keeps_budget (coveragePrune : Bool) (argsort : List L → List Nat)
    (sorts : ∀ keys, ArgsortDescending keys (argsort keys)) (n budget : Nat) (arrays : TreeArrays L)
    (holds : arrays.Holds n) (forest : Forest n arrays.parents) :
    ∃ kept after, pruneTreeNp coveragePrune argsort n arrays budget = some (kept.length, after) ∧
      Pruned n budget arrays kept after ∧ Forest kept.length after.parents ∧
      (coveragePrune = false → StrictlyFalling n arrays →
        ∀ node, node ∈ kept ↔ node ∈ topBudget n budget arrays) := by
  by_cases small : n ≤ budget
  · have pruned := pruned_all forest small
    refine ⟨List.range n, arrays, by simp [pruneTreeNp, small], pruned, pruned.forest forest, ?_⟩
    intro _ _ node
    simp only [topBudget, List.mem_filter, decide_eq_true_eq, iff_self_and]
    intro inside
    have notAbove : ∃ other ∈ List.range n, ¬ decide (arrays.lp node < arrays.lp other) = true :=
      ⟨node, inside, by simp⟩
    have few := List.length_filter_lt_length_iff_exists.mpr notAbove
    rw [List.length_range] at few
    omega
  cases coveragePrune with
  | true =>
    obtain ⟨-, kept, after, -, ran, pruned, -⟩ := forest.pruneTreeCoverageNp_pruned sorts holds small
    exact ⟨kept, after, by simp [pruneTreeNp, small, ran], pruned, pruned.forest forest, by simp⟩
  | false =>
    obtain ⟨kept, ran, pruned, top⟩ := forest.pruneTreeNp_greedy sorts holds small
    exact ⟨kept, _, ran, pruned, pruned.forest forest, fun _ => top⟩

theorem forest_of_ordered {parents : List Int} (long : n ≤ parents.length)
    (ordered : ∀ node < n, -1 ≤ parents.getD node 0 ∧ parents.getD node 0 < (node : Int)) :
    Forest n parents where
  inside := by
    intro node inside
    obtain ⟨low, high⟩ := ordered node inside
    rw [List.getD_eq_getElem _ _ (by omega)] at low high
    exact ⟨parents[node], List.getElem?_eq_getElem (by omega), low, by omega⟩
  acyclic := by
    refine acyclic_of_decreasing id fun node above link => ?_
    have high := (ordered node link.1).2
    rw [List.getD_eq_getElem?_getD, link.2, Option.getD_some] at high
    show above < node
    omega

/-- A stable sort of the positions by falling value. -/
def stableArgsort (keys : List L) : List Nat :=
  (List.range keys.length).insertionSort (fun first second =>
    keys.getD second default ≤ keys.getD first default)

theorem stableArgsort_sorts (keys : List L) : ArgsortDescending keys (stableArgsort keys) where
  positions := List.perm_insertionSort _ _
  falling := by
    let above (first second : Nat) : Prop := keys.getD second default ≤ keys.getD first default
    have total : Std.Total above := ⟨fun first second => le_total _ _⟩
    have transitive : IsTrans Nat above := ⟨fun _ _ _ first second => second.trans first⟩
    refine (List.pairwise_insertionSort above (List.range keys.length)).imp ?_
    intro first second sorted high atFirst low atSecond
    have readFirst : keys.getD first default = high := by simp [List.getD, Option.mem_def.mp atFirst]
    have readSecond : keys.getD second default = low := by
      simp [List.getD, Option.mem_def.mp atSecond]
    rw [← readFirst, ← readSecond]
    exact sorted

/-- A root child with three children, two of them the same token. -/
def repeatedTree : TreeArrays Int where
  tokens := [5, 7, 7, 8]
  parents := [-1, 0, 0, 0]
  lps := [-1, -2, -3, -4]
  ranks := [0, 1, 2, 3]
  blocks := [1, 1, 1, 1]
  slots := [0, 1, 1, 1]

/-- Its arrays are a forest with distinct falling log-probabilities. -/
theorem repeatedTree_forest : repeatedTree.Holds 4 ∧ Forest 4 repeatedTree.parents ∧
    StrictlyFalling 4 repeatedTree := by
  have forest : Forest 4 repeatedTree.parents := forest_of_ordered (by decide) (by decide)
  refine ⟨by constructor <;> decide, forest, ⟨fun node above link => ?_, by decide⟩⟩
  have ordered : ∀ node < 4, ∀ above < 4, repeatedTree.parents[node]? = some ((above : Nat) : Int) →
      repeatedTree.lp node < repeatedTree.lp above := by decide
  exact ordered node link.1 above (forest.link_inside link) link.2

/-- The first three nodes of that tree are kept. -/
theorem pruneTreeNp_keeps_budget_repeated : ∃ kept after,
    pruneTreeNp false stableArgsort 4 repeatedTree 3 = some (kept.length, after) ∧
      Pruned 4 3 repeatedTree kept after ∧ Forest kept.length after.parents ∧
      ∀ node, node ∈ kept ↔ node ∈ topBudget 4 3 repeatedTree := by
  obtain ⟨holds, forest, falling⟩ := repeatedTree_forest
  obtain ⟨kept, after, ran, pruned, again, top⟩ := pruneTreeNp_keeps_budget false stableArgsort
    stableArgsort_sorts 4 3 repeatedTree holds forest
  exact ⟨kept, after, ran, pruned, again, top rfl falling⟩

/-- With coverage pruning the second of two equal leaves gives way to a node below the top of
the budget. -/
theorem coverage_keeps_below_top : StrictlyFalling 4 repeatedTree ∧
    topBudget 4 3 repeatedTree = [0, 1, 2] ∧
    (pruneTreeNp true stableArgsort 4 repeatedTree 3).map
        (fun pruned => (pruned.1, pruned.2.tokens.take 3, pruned.2.lps.take 3)) =
      some (3, [5, 7, 8], [-1, -2, -4]) :=
  ⟨repeatedTree_forest.2.2, by decide, by decide⟩

end pruning

end SpecBlock.Building
