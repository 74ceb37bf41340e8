import SpecBlock.Batch.Eagle3Law

/-!
# A batch of EAGLE3 trees

The loop of `_sample_tree_paths` over a whole batch: each row's results lie on the
row's own tree whatever is drawn, the tokens a row emits have the law of ancestral
sampling from the target, and the rows of a batch are independent, each with the
law it has when its request is sampled alone.
-/

namespace SpecBlock.Eagle3

open Batch Rejection

section rows

variable (vocabSize : Nat) (probabilities : Nat → Nat → Nat → ℚ) (rows : List PathRow)

theorem samplePosition_eq (position : Nat) (states : List Sampler) :
    samplePosition vocabSize probabilities rows position states =
      Law.each (states.mapIdx (fun row state =>
        rowStep vocabSize (probabilities row) (rows.getD row default) position state)) := by
  rw [samplePosition, Law.each_map, List.mapIdx_mapIdx]
  apply congrArg Law.each
  apply List.ext_getElem (by simp)
  intro row inside _
  rw [List.length_mapIdx] at inside
  have own : states.getD row default = states[row] := by
    simp [List.getD_eq_getElem?_getD, inside]
  rw [List.getElem_mapIdx, List.getElem_mapIdx, rowStep, Function.comp_apply, own]

theorem samplePositions_eq (positions : List Nat) (states : List Sampler) :
    samplePositions vocabSize probabilities rows positions states =
      Law.parallel (fun position row =>
        rowStep vocabSize (probabilities row) (rows.getD row default) position) positions states := by
  induction positions generalizing states with
  | nil => rfl
  | cons position positions ih =>
    rw [samplePositions, Law.parallel, samplePosition_eq]
    exact congrArg _ (funext ih)

theorem sampleBonus_eq (states : List Sampler) :
    sampleBonus vocabSize probabilities rows states =
      Law.each (states.mapIdx (fun row state =>
        rowBonus vocabSize (probabilities row) (rows.getD row default) state)) := by
  rw [sampleBonus, Law.each_map, List.mapIdx_mapIdx]
  apply congrArg Law.each
  apply List.ext_getElem (by simp)
  intro row inside _
  rw [List.length_mapIdx] at inside
  have own : states.getD row default = states[row] := by
    simp [List.getD_eq_getElem?_getD, inside]
  rw [List.getElem_mapIdx, List.getElem_mapIdx, rowBonus, Function.comp_apply, own]

end rows

/-- A row's positions and last draw, on its own. -/
def rowWalk (vocabSize : Nat) (probabilities : Nat → Nat → ℚ) (row : PathRow)
    (positions : List Nat) : Law SampledRow := do
  let state ← Law.sequential (rowStep vocabSize probabilities row) positions ⟨0, 0, false, 0⟩
  rowBonus vocabSize probabilities row state

theorem sampleTreePaths_same (vocabSize : Nat) (trees : List Tree) (treeInputIds : List (List Nat))
    (probabilities : Nat → Nat → Nat → ℚ) :
    (sampleTreePaths vocabSize trees treeInputIds probabilities).Same
      (Law.each (trees.mapIdx (fun row _ => rowWalk vocabSize (probabilities row)
        ((pathRows trees treeInputIds).getD row default)
        (List.range' 1 (maximum (trees.map (fun tree => tree.retrieve.width)) - 1))))) := by
  intro value
  have loop := Law.parallel_each (fun position row => rowStep vocabSize (probabilities row)
    ((pathRows trees treeInputIds).getD row default) position)
    (List.range' 1 (maximum (trees.map (fun tree => tree.retrieve.width)) - 1))
    (trees.map (fun _ => ⟨0, 0, false, 0⟩))
  have rounds := Law.each_rounds ((trees.map (fun _ => (⟨0, 0, false, 0⟩ : Sampler))).mapIdx
    (fun row state => Law.sequential (fun position => rowStep vocabSize (probabilities row)
      ((pathRows trees treeInputIds).getD row default) position)
      (List.range' 1 (maximum (trees.map (fun tree => tree.retrieve.width)) - 1)) state))
    (fun row state => rowBonus vocabSize (probabilities row)
      ((pathRows trees treeInputIds).getD row default) state) value
  have walks : ((trees.map (fun _ => (⟨0, 0, false, 0⟩ : Sampler))).mapIdx
      (fun row state => Law.sequential (fun position => rowStep vocabSize (probabilities row)
        ((pathRows trees treeInputIds).getD row default) position)
        (List.range' 1 (maximum (trees.map (fun tree => tree.retrieve.width)) - 1)) state)).mapIdx
      (fun row law => law >>= fun state => rowBonus vocabSize (probabilities row)
        ((pathRows trees treeInputIds).getD row default) state) =
      trees.mapIdx (fun row _ => rowWalk vocabSize (probabilities row)
        ((pathRows trees treeInputIds).getD row default)
        (List.range' 1 (maximum (trees.map (fun tree => tree.retrieve.width)) - 1))) := by
    apply List.ext_getElem (by simp)
    intro row _ _
    simp [rowWalk]
  rw [walks, Law.expect_bind] at rounds
  rw [sampleTreePaths, Law.expect_bind, samplePositions_eq]
  simp only [sampleBonus_eq]
  rw [loop]
  exact rounds

section inside

variable {row : PathRow} {tree : Tree}

/-- A row's state lies on its tree: the selected leaf is genuine and its path goes
on to the last accepted node, which lies before the position to come. -/
structure Sampler.Inside (state : Sampler) (tree : Tree) (position : Nat) : Prop where
  genuine : state.selectedLeaf < tree.retrieve.rows.length
  onPath : state.acceptLength < (tree.path state.selectedLeaf).length
  before : state.acceptLength < position

/-- The first leaf of a mask that is not empty is one of its leaves. -/
theorem firstLeaf_mem (row : PathRow) (mask : Nat → Bool) (someLeaf : row.anyLeaf mask = true) :
    mask (row.firstLeaf mask) = true := by
  have found : ((List.range row.leafValid.length).find? mask).isSome = true := by
    rw [List.find?_isSome]
    exact List.any_eq_true.mp someLeaf
  obtain ⟨first, same⟩ := Option.isSome_iff_exists.mp found
  rw [PathRow.firstLeaf, same, Option.getD_some]
  exact List.find?_some same

theorem advance_inside (reads : row.Reads tree) (position : Nat) (state : Sampler) (sampled : Nat)
    (holds : state.Inside tree position) :
    (advance row position state sampled).Inside tree (position + 1) := by
  cases accepted : hasChild row position state &&
      row.anyLeaf (childMatches row position state.selectedLeaf sampled) with
  | false =>
    have leaf : (advance row position state sampled).selectedLeaf = state.selectedLeaf := by
      simp [advance, accepted]
    have length : (advance row position state sampled).acceptLength = state.acceptLength := by
      simp [advance, accepted]
    exact ⟨leaf ▸ holds.genuine, by rw [leaf, length]; exact holds.onPath,
      by rw [length]; exact Nat.lt_succ_of_lt holds.before⟩
  | true =>
    have leaf : (advance row position state sampled).selectedLeaf =
        row.firstLeaf (childMatches row position state.selectedLeaf sampled) := by
      simp [advance, accepted]
    have length : (advance row position state sampled).acceptLength = state.acceptLength + 1 := by
      simp [advance, accepted]
    have matched := firstLeaf_mem row _ (Bool.and_eq_true_iff.mp accepted).2
    rw [← leaf] at matched
    simp only [childMatches, Bool.and_eq_true] at matched
    have genuine := ((prefixMatches_iff reads _ _ _ holds.genuine).mp matched.1.1).1
    have onPath := matched.1.2
    rw [retrieveValid_eq reads _ _ genuine, decide_eq_true_eq, Tree.spelling_length] at onPath
    have before := holds.before
    exact ⟨genuine, by rw [length]; omega, by rw [length]; omega⟩

/-- Results of a row on its tree are a root path of the tree and its tokens. -/
theorem finish_onTree {current position : Nat} (reads : row.Reads tree)
    (wellFormed : tree.WellFormed current) (state : Sampler) (bonus : Nat)
    (holds : state.Inside tree position) :
    (finish row state bonus).OnTree tree
      ((tree.path state.selectedLeaf).take (state.acceptLength + 1)) := by
  obtain ⟨-, root, bounded⟩ := wellFormed.row_path _ holds.genuine
  obtain ⟨padding, nodes⟩ := reads.retrieve _ holds.genuine
  obtain ⟨blank, spelled⟩ := reads.tokens _ holds.genuine
  have long : state.acceptLength + 1 ≤ (tree.path state.selectedLeaf).length := holds.onPath
  refine ⟨?_, ?_, fun node member => bounded node (List.mem_of_mem_take member), ?_, ?_, ?_⟩
  · rw [List.length_take, Nat.min_eq_left long]
    rfl
  · rw [List.head?_take, if_neg (Nat.succ_ne_zero _)]
    exact root
  · intro place node read
    rw [List.getElem?_take] at read
    split at read
    · next before =>
      rw [wellFormed.rootPath_path _ place node read, List.take_take, Nat.min_eq_left (by omega)]
    · cases read
  · simp only [SampledRow.accepted, finish]
    rw [nodes, List.take_append_of_le_length (by simpa using long), List.map_take]
  · simp only [SampledRow.accepted, finish]
    rw [spelled, List.take_append_of_le_length (by simpa using long), Tree.spelling, Tree.tokensAt,
      Tree.tokensAt, List.map_take, List.map_take]

end inside

/-- Every row of probabilities is a distribution, and at a node of the tree it is
the target's after the node's root path. -/
structure Follows (vocabSize : Nat) (trees : List Tree) (contexts : Nat → List Nat)
    (target : List Nat → Nat → ℚ) (probabilities : Nat → Nat → Nat → ℚ) : Prop where
  distribution : ∀ row node, Distribution vocabSize (probabilities row node)
  faithful : ∀ row tree node path, trees[row]? = some tree → tree.rootPath node = some path →
    probabilities row node = target (contexts row ++ tree.tokensAt path)

/-- Ancestral sampling after a tree's root for as long as the tree drafts the
tokens, with what the caller keeps of it. -/
def ownLaw (vocabSize : Nat) (target : List Nat → Nat → ℚ) (tree : Tree) : Law SampledRow := do
  let emission ← Law.ancestral vocabSize target tree.drafts (tree.retrieve.width - 1)
    [tree.tokens.headD 0]
  pure (outcome tree emission)

/-- What is kept of a request sampled in a batch of its own. -/
def alone (vocabSize padTokenId : Nat) (probabilities : Nat → Nat → ℚ) (tree : Tree) :
    Law SampledRow := do
  let sampled ← sampleTreePaths vocabSize [tree] (packInputIds [tree] padTokenId)
    (fun _ => probabilities)
  pure (sampled.headD default).accepted

section batch

variable {vocabSize : Nat} (padTokenId : Nat) {trees : List Tree} {contexts : Nat → List Nat}
  {target : List Nat → Nat → ℚ} {probabilities : Nat → Nat → Nat → ℚ}

theorem root_drafted {tree : Tree} {current : Nat} (wellFormed : tree.WellFormed current) :
    tree.drafts [current] = true ∧ leafOf tree [current] = 0 := by
  have someLeaf : 0 < tree.retrieve.rows.length := List.length_pos_iff.mpr wellFormed.nonempty
  have agrees : [current] <+: tree.spelling 0 := by
    rw [wellFormed.spelling_root 0 someLeaf]
    exact ⟨_, rfl⟩
  refine ⟨drafts_iff.mpr ⟨0, someLeaf, agrees⟩, ?_⟩
  obtain ⟨rest, total⟩ := Nat.exists_eq_add_of_lt someLeaf
  rw [leafOf, total, Nat.zero_add, List.range_succ_eq_map]
  simp [agrees]

/-- The walk of a row in any batch has the law of its own tree and target. -/
theorem rowWalk_law (follows : Follows vocabSize trees contexts target probabilities)
    (row current : Nat) (tree : Tree) (listed : trees[row]? = some tree)
    (wellFormed : tree.WellFormed current) :
    (rowWalk vocabSize (probabilities row)
        ((pathRows trees (packInputIds trees padTokenId)).getD row default)
        (List.range' 1 (maximum (trees.map (fun tree => tree.retrieve.width)) - 1)) >>=
      fun sampled => pure sampled.accepted).Same
      (ownLaw vocabSize (fun tokens => target (contexts row ++ tokens)) tree) := by
  intro value
  obtain ⟨drafted, first⟩ := root_drafted wellFormed
  have widest : tree.retrieve.width ≤ maximum (trees.map (fun tree => tree.retrieve.width)) :=
    le_maximum _ _ (List.mem_map.mpr ⟨tree, List.mem_of_getElem? listed, rfl⟩)
  have root : tree.tokens.headD 0 = current := by
    rw [List.headD_eq_head?_getD, wellFormed.root, Option.getD_some]
  have walk := @walk_law _ tree vocabSize current (probabilities row)
    (fun tokens => target (contexts row ++ tokens))
    (pathRows_reads trees padTokenId row current tree listed wellFormed) wellFormed
    (follows.distribution row)
    (fun node nodes found => follows.faithful row tree node nodes listed found) value
    (maximum (trees.map (fun tree => tree.retrieve.width)) - 1) [current] drafted (by simp) 0
    (by rw [List.length_singleton]; omega)
  rw [first] at walk
  rw [ownLaw, root, Law.expect_map, Law.expect_map, rowWalk, Law.expect_bind]
  exact walk

theorem rowWalk_total (distribution : ∀ row node, Distribution vocabSize (probabilities row node))
    (row : Nat) (tensors : PathRow) (positions : List Nat) :
    (rowWalk vocabSize (probabilities row) tensors positions).Total :=
  Law.total_bind _ _
    (Law.total_sequential _ (fun position state => rowStep_total (distribution row) position state) _ _)
    (fun _ _ => Law.total_bind _ _ (total_draw (distribution row _)) (fun _ _ => Law.total_pure _))

variable (rooted : ∀ tree ∈ trees, ∃ current, tree.WellFormed current)
  (follows : Follows vocabSize trees contexts target probabilities)
include rooted follows

/-- What is kept of the rows of a batch are independent draws, each from the law of
the row's own tree and target. -/
theorem sampled_rows :
    (sampleTreePaths vocabSize trees (packInputIds trees padTokenId) probabilities >>=
        fun sampled => pure (sampled.map SampledRow.accepted)).Same
      (Law.each (trees.mapIdx (fun row tree =>
        ownLaw vocabSize (fun tokens => target (contexts row ++ tokens)) tree))) := by
  have mapped : ∀ sampled : List SampledRow, sampled.map SampledRow.accepted =
      sampled.mapIdx (fun _ => SampledRow.accepted) := by
    intro sampled
    apply List.ext_getElem (by simp)
    intro row _ _
    simp
  simp only [mapped]
  refine ((sampleTreePaths_same vocabSize trees _ probabilities).map _).trans ?_
  rw [Law.each_map, List.mapIdx_mapIdx]
  refine Law.each_congr trees _ _ (fun row tree listed => ?_)
  obtain ⟨current, wellFormed⟩ := rooted tree (List.mem_of_getElem? listed)
  exact rowWalk_law padTokenId follows row current tree listed wellFormed

/-- A request sampled alone has the law of its own tree and target. -/
theorem alone_same (row : Nat) (tree : Tree) (listed : trees[row]? = some tree) :
    (alone vocabSize padTokenId (probabilities row) tree).Same
      (ownLaw vocabSize (fun tokens => target (contexts row ++ tokens)) tree) := by
  have single : Follows vocabSize [tree] (fun _ => contexts row) target
      (fun _ => probabilities row) := by
    refine ⟨fun _ => follows.distribution row, fun place other node path found rootPath => ?_⟩
    have same : other = tree := by
      have member := List.mem_of_getElem? found
      simpa using member
    subst same
    exact follows.faithful row other node path listed rootPath
  have law := (sampled_rows padTokenId (fun other member => by
    obtain rfl : other = tree := by simpa using member
    exact rooted other (List.mem_of_getElem? listed)) single).map (fun rows => rows.headD default)
  intro value
  have own := law value
  simp only [Law.expect_map] at own
  rw [alone, Law.expect_map]
  have head : ∀ sampled : List SampledRow,
      (sampled.map SampledRow.accepted).headD default = (sampled.headD default).accepted := by
    intro sampled
    cases sampled <;> rfl
  simp only [head] at own
  rw [own]
  simp [Law.each]

/-- The tokens a row of the batch emits have the law of ancestral sampling from
the target. -/
theorem emitted_law (row current : Nat) (tree : Tree) (listed : trees[row]? = some tree)
    (wellFormed : tree.WellFormed current) :
    (sampleTreePaths vocabSize trees (packInputIds trees padTokenId) probabilities >>=
        fun sampled => pure (sampled[row]?.map SampledRow.emitted)).Same
      (Law.ancestral vocabSize (fun tokens => target (contexts row ++ tokens)) tree.drafts
        (tree.retrieve.width - 1) [current] >>= fun emission => pure (some emission.tail)) := by
  intro value
  have root : tree.tokens.headD 0 = current := by
    rw [List.headD_eq_head?_getD, wellFormed.root, Option.getD_some]
  have kept : ∀ sampled : SampledRow, sampled.accepted.emitted = sampled.emitted := by
    intro sampled
    simp [SampledRow.emitted, SampledRow.accepted, List.take_take]
  have totals : ∀ law ∈ trees.mapIdx (fun row tree =>
      ownLaw vocabSize (fun tokens => target (contexts row ++ tokens)) tree), law.Total := by
    intro law member
    obtain ⟨other, inside, rfl⟩ := List.mem_mapIdx.mp member
    obtain ⟨first, own⟩ := rooted trees[other] (List.getElem_mem inside)
    have same := rowWalk_law padTokenId follows other first trees[other]
      (List.getElem?_eq_getElem inside) own (fun _ => 1)
    rw [Law.Total, ← same, Law.expect_map]
    exact rowWalk_total follows.distribution other _ _
  calc (sampleTreePaths vocabSize trees (packInputIds trees padTokenId) probabilities >>=
        fun sampled => pure (sampled[row]?.map SampledRow.emitted)).expect value
      = (sampleTreePaths vocabSize trees (packInputIds trees padTokenId) probabilities >>=
          fun sampled => pure (sampled.map SampledRow.accepted)).expect
          (fun rows => value (rows[row]?.map SampledRow.emitted)) := by
        rw [Law.expect_map, Law.expect_map]
        simp only [List.getElem?_map, Option.map_map, Function.comp_def, kept]
    _ = (ownLaw vocabSize (fun tokens => target (contexts row ++ tokens)) tree).expect
          (fun sampled => value (some sampled.emitted)) := by
        rw [sampled_rows padTokenId rooted follows, Law.each_marginal _ totals row
          (fun entry => value (entry.map SampledRow.emitted)), List.getElem?_mapIdx, listed]
        rfl
    _ = _ := by
        rw [ownLaw, root, Law.expect_map, Law.expect_map]
        refine Law.expect_congr _ _ _ (fun emission member => ?_)
        obtain ⟨rest, token, rfl⟩ := Law.mem_ancestral _ _ _ _ _ _ member
        exact congrArg (fun tokens => value (some tokens)) (outcome_emitted tree current token rest)

end batch

section outcomes

variable (vocabSize padTokenId : Nat) (trees : List Tree) (probabilities : Nat → Nat → Nat → ℚ)

/-- The state of a row lies on the tree of the request in that row. -/
def RowInside (position row : Nat) (state : Sampler) : Prop :=
  ∀ tree, trees[row]? = some tree → state.Inside tree position

/-- The results of a row are a root path of the tree of the request in that row. -/
def RowOnTree (row : Nat) (sampled : SampledRow) : Prop :=
  ∀ tree, trees[row]? = some tree → ∃ path, sampled.OnTree tree path

variable {trees} (rooted : ∀ tree ∈ trees, ∃ current, tree.WellFormed current)
include rooted

theorem samplePositions_inside (count position : Nat) (states final : List Sampler)
    (holds : ∀ row state, states[row]? = some state → RowInside trees position row state)
    (member : final ∈ (samplePositions vocabSize probabilities
      (pathRows trees (packInputIds trees padTokenId)) (List.range' position count) states).outcomes) :
    final.length = states.length ∧
      ∀ row state, final[row]? = some state → RowInside trees (position + count) row state := by
  induction count generalizing position states with
  | zero =>
    rw [List.range'_zero, samplePositions, Law.mem_outcomes_pure] at member
    subst member
    exact ⟨rfl, holds⟩
  | succ count ih =>
    rw [List.range'_succ, samplePositions] at member
    obtain ⟨advanced, drawn, later⟩ := (Law.mem_outcomes_bind _ _ _).mp member
    rw [samplePosition_eq] at drawn
    obtain ⟨lengths, kept⟩ := Law.mem_outcomes_rows _ (RowInside trees position)
      (RowInside trees (position + 1))
      (by
        intro row state inside outcome reached tree listed
        obtain ⟨current, wellFormed⟩ := rooted tree (List.mem_of_getElem? listed)
        obtain ⟨sampled, _, last⟩ := (Law.mem_outcomes_bind _ _ _).mp reached
        rw [Law.mem_outcomes_pure] at last
        subst last
        exact advance_inside (pathRows_reads trees padTokenId row current tree listed wellFormed)
          position state sampled (inside tree listed))
      states advanced holds drawn
    obtain ⟨lengthsLater, inside⟩ := ih (position + 1) advanced kept later
    refine ⟨lengthsLater.trans lengths, fun row state read => ?_⟩
    have reached := inside row state read
    rwa [Nat.add_right_comm] at reached

/-- Every listed result of the batch is a root path of the row's own tree. -/
theorem sampleTreePaths_onTree (sampled : List SampledRow)
    (member : sampled ∈ (sampleTreePaths vocabSize trees (packInputIds trees padTokenId)
      probabilities).outcomes) :
    sampled.length = trees.length ∧
      ∀ row result, sampled[row]? = some result → RowOnTree trees row result := by
  obtain ⟨states, walked, finished⟩ := (Law.mem_outcomes_bind _ _ _).mp member
  have start : ∀ row state, (trees.map (fun _ => (⟨0, 0, false, 0⟩ : Sampler)))[row]? = some state →
      RowInside trees 1 row state := by
    intro row state read tree listed
    obtain ⟨current, wellFormed⟩ := rooted tree (List.mem_of_getElem? listed)
    obtain ⟨_, -, rfl⟩ := List.mem_map.mp (List.mem_of_getElem? read)
    have someLeaf : 0 < tree.retrieve.rows.length := List.length_pos_iff.mpr wellFormed.nonempty
    obtain ⟨-, root, -⟩ := wellFormed.row_path 0 someLeaf
    refine ⟨someLeaf, List.length_pos_iff.mpr fun empty => ?_, Nat.zero_lt_one⟩
    rw [empty] at root
    cases root
  obtain ⟨lengths, inside⟩ := samplePositions_inside vocabSize padTokenId probabilities rooted _ 1
    _ states start walked
  rw [sampleBonus_eq] at finished
  obtain ⟨finalLengths, onTree⟩ := Law.mem_outcomes_rows _ (RowInside trees _) (RowOnTree trees)
    (by
      intro row state holds result reached tree listed
      obtain ⟨current, wellFormed⟩ := rooted tree (List.mem_of_getElem? listed)
      obtain ⟨bonus, _, last⟩ := (Law.mem_outcomes_bind _ _ _).mp reached
      rw [Law.mem_outcomes_pure] at last
      subst last
      exact ⟨_, finish_onTree (pathRows_reads trees padTokenId row current tree listed wellFormed)
        wellFormed state bonus (holds tree listed)⟩)
    states sampled inside finished
  exact ⟨by rw [finalLengths, lengths, List.length_map], onTree⟩

end outcomes

/-- **The batched sampler follows the target.** Whatever is drawn, every row keeps
a root path of its own tree with its tokens; the tokens a row emits have the law of
ancestral sampling from the target; and what is kept of the rows are independent
draws, each with the law the request has in a batch of its own. -/
theorem sampleTreePaths_law (vocabSize padTokenId : Nat) (trees : List Tree)
    (contexts : Nat → List Nat) (target : List Nat → Nat → ℚ)
    (probabilities : Nat → Nat → Nat → ℚ)
    (rooted : ∀ tree ∈ trees, ∃ current, tree.WellFormed current)
    (follows : Follows vocabSize trees contexts target probabilities) :
    (∀ sampled ∈ (sampleTreePaths vocabSize trees (packInputIds trees padTokenId)
        probabilities).outcomes, sampled.length = trees.length ∧
      ∀ (row : Nat) (result : SampledRow) (tree : Tree), sampled[row]? = some result →
        trees[row]? = some tree → ∃ path, result.OnTree tree path) ∧
    (∀ row tree current, trees[row]? = some tree → tree.WellFormed current →
      (sampleTreePaths vocabSize trees (packInputIds trees padTokenId) probabilities >>=
          fun sampled => pure (sampled[row]?.map SampledRow.emitted)).Same
        (Law.ancestral vocabSize (fun tokens => target (contexts row ++ tokens)) tree.drafts
          (tree.retrieve.width - 1) [current] >>= fun emission => pure (some emission.tail))) ∧
    (sampleTreePaths vocabSize trees (packInputIds trees padTokenId) probabilities >>=
        fun sampled => pure (sampled.map SampledRow.accepted)).Same
      (Law.each (trees.mapIdx (fun row tree =>
        alone vocabSize padTokenId (probabilities row) tree))) := by
  refine ⟨fun sampled member => ?_, fun row tree current listed wellFormed => ?_, ?_⟩
  · obtain ⟨lengths, onTree⟩ :=
      sampleTreePaths_onTree vocabSize padTokenId probabilities rooted sampled member
    exact ⟨lengths, fun row result tree read listed => onTree row result read tree listed⟩
  · exact emitted_law padTokenId rooted follows row current tree listed wellFormed
  · refine (sampled_rows padTokenId rooted follows).trans ?_
    exact Law.each_congr trees _ _ (fun row tree listed =>
      (alone_same padTokenId rooted follows row tree listed).symm)

/-- The fork and the ragged tree with twin siblings, under a target that prefers
token one. -/
theorem sampleTreePaths_law_fork :
    (sampleTreePaths 2 [fork, twins] (packInputIds [fork, twins] 0)
        (fun _ _ => coin (3 / 4)) >>= fun sampled => pure (sampled.map SampledRow.accepted)).Same
      (Law.each ([fork, twins].mapIdx (fun _ tree => alone 2 0 (fun _ => coin (3 / 4)) tree))) := by
  have fair := coin_distribution (3 / 4) (by norm_num) (by norm_num)
  exact (sampleTreePaths_law 2 0 [fork, twins] (fun _ => []) (fun _ => coin (3 / 4))
    (fun _ _ => coin (3 / 4))
    (by
      intro tree member
      rcases (by simpa using member : tree = fork ∨ tree = twins) with rfl | rfl
      · exact ⟨0, Tree.checked_wellFormed _ _ (by decide)⟩
      · exact ⟨1, Tree.checked_wellFormed _ _ (by decide)⟩)
    ⟨fun _ _ => fair, fun _ _ _ _ _ _ => rfl⟩).2.2

end SpecBlock.Eagle3
