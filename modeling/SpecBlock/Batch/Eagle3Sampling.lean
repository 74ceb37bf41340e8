import SpecBlock.Batch.SamplingLaw

/-!
# Batched sampling of EAGLE3 trees

`_sample_tree_paths` walks all trees of a batch through one loop over path
positions. Every row keeps a selected leaf, whose first tokens are the accepted
prefix, and at every position one token is drawn for it from the target at that
prefix. A leaf that continues the prefix by the drawn token becomes the selected
one; when some leaf continues the prefix but none by that token, the row stops
and keeps the token; when no leaf continues the prefix, the draw is ignored. A
last draw at the end of the accepted prefix serves the rows that never stopped.

Rows of a batch share the packed shape only. `PathRow.Reads` states what a row of
the packed tensors holds of the request's own tree, and every mask of the loop is
read as a statement about the tree's spellings.
-/

namespace SpecBlock.Eagle3

open Batch Rejection

/-- A row of the tensors the loop reads: packed node paths, the mask of genuine
leaves, and the tokens along the paths. -/
structure PathRow where
  retrieve : List (List Int)
  leafValid : List Bool
  pathTokens : List (List Int)
  deriving Inhabited

/-- `_pack_retrieve_indices`: every request's paths padded to the batch's path
count and path width, with the mask of its own leaves. -/
def packRetrieveIndices (trees : List Tree) : List (List (List Int) × List Bool) :=
  let maxPaths := maximum (trees.map (fun tree => tree.retrieve.rows.length))
  let maxPathWidth := maximum (trees.map (fun tree => tree.retrieve.width))
  trees.map (fun tree => (padRetrieve maxPaths maxPathWidth tree.retrieve,
    List.replicate tree.retrieve.rows.length true ++
      List.replicate (maxPaths - tree.retrieve.rows.length) false))

/-- The `input_ids` of `_pack_trees`: tree tokens, right-padded to one width. -/
def packInputIds (trees : List Tree) (padTokenId : Nat) : List (List Nat) :=
  let treeWidth := maximum (trees.map Tree.width)
  trees.map (fun tree => tree.tokens ++ List.replicate (treeWidth - tree.width) padTokenId)

/-- `path_tokens`: tokens gathered at the nodes of the paths, `-1` at padding. -/
def pathTokens (retrieve : List (List Int)) (inputIds : List Nat) : List (List Int) :=
  retrieve.map (fun path => path.map (fun index =>
    if 0 ≤ index then ((inputIds.getD index.toNat 0 : Nat) : Int) else -1))

/-- The rows of the packed tensors. -/
def pathRows (trees : List Tree) (treeInputIds : List (List Nat)) : List PathRow :=
  (packRetrieveIndices trees).mapIdx (fun row packed =>
    { retrieve := packed.1
      leafValid := packed.2
      pathTokens := pathTokens packed.1 (treeInputIds.getD row []) })

namespace PathRow

/-- `retrieve_valid`: a path has a node at a position. -/
def retrieveValid (row : PathRow) (leaf position : Nat) : Bool :=
  decide (0 ≤ (row.retrieve.getD leaf []).getD position (-1))

/-- `safe_retrieve`: the node of a path, zero for padding. -/
def safeRetrieve (row : PathRow) (leaf position : Nat) : Nat :=
  ((row.retrieve.getD leaf []).getD position (-1)).toNat

/-- The token of a path at a position. -/
def pathToken (row : PathRow) (leaf position : Nat) : Int :=
  (row.pathTokens.getD leaf []).getD position (-1)

/-- `prefix_matches`: a genuine leaf whose first nodes exist and carry the tokens
of the selected leaf. -/
def prefixMatches (row : PathRow) (position selectedLeaf leaf : Nat) : Bool :=
  row.leafValid.getD leaf false &&
    (List.range position).all (row.retrieveValid leaf) &&
    (List.range position).all (fun earlier =>
      row.pathToken leaf earlier == row.pathToken selectedLeaf earlier)

/-- `argmax` over the leaves of a mask: its first leaf, zero for an empty mask. -/
def firstLeaf (row : PathRow) (mask : Nat → Bool) : Nat :=
  ((List.range row.leafValid.length).find? mask).getD 0

/-- `any` over the leaves of a mask. -/
def anyLeaf (row : PathRow) (mask : Nat → Bool) : Bool :=
  (List.range row.leafValid.length).any mask

end PathRow

/-- State of one row of the loop. -/
structure Sampler where
  selectedLeaf : Nat
  acceptLength : Nat
  stopped : Bool
  nextToken : Nat
  deriving Inhabited

/-- `has_child`: the row still runs and some leaf continues its prefix. -/
def hasChild (row : PathRow) (position : Nat) (state : Sampler) : Bool :=
  row.anyLeaf (fun leaf => row.prefixMatches position state.selectedLeaf leaf &&
    row.retrieveValid leaf position) && !state.stopped

/-- `logit_nodes`: the end of the prefix on the first leaf that shares it. -/
def logitNode (row : PathRow) (position : Nat) (state : Sampler) : Nat :=
  row.safeRetrieve (row.firstLeaf (row.prefixMatches position state.selectedLeaf)) (position - 1)

/-- `child_matches`: a leaf continues the prefix by the drawn token. -/
def childMatches (row : PathRow) (position selectedLeaf sampled leaf : Nat) : Bool :=
  row.prefixMatches position selectedLeaf leaf && row.retrieveValid leaf position &&
    row.pathToken leaf position == (sampled : Int)

/-- What a drawn token does to the state of its row. -/
def advance (row : PathRow) (position : Nat) (state : Sampler) (sampled : Nat) : Sampler :=
  let accepted := hasChild row position state &&
    row.anyLeaf (childMatches row position state.selectedLeaf sampled)
  let rejected := hasChild row position state && !accepted
  { selectedLeaf :=
      if accepted then row.firstLeaf (childMatches row position state.selectedLeaf sampled)
      else state.selectedLeaf
    acceptLength := state.acceptLength + if accepted then 1 else 0
    stopped := state.stopped || rejected
    nextToken := if rejected then sampled else state.nextToken }

/-- `bonus_nodes`: the end of the accepted prefix on the selected leaf. -/
def bonusNode (row : PathRow) (state : Sampler) : Nat :=
  row.safeRetrieve state.selectedLeaf state.acceptLength

/-- What the sampler returns for a row. -/
structure SampledRow where
  acceptLength : Nat
  selectedNodes : List Int
  selectedTokens : List Int
  nextToken : Nat
  deriving Inhabited

/-- The row's results: a stopped row keeps its token, another one takes the last
draw. -/
def finish (row : PathRow) (state : Sampler) (bonus : Nat) : SampledRow where
  acceptLength := state.acceptLength
  selectedNodes := row.retrieve.getD state.selectedLeaf []
  selectedTokens := row.pathTokens.getD state.selectedLeaf []
  nextToken := if state.stopped then state.nextToken else bonus

section batch

variable (vocabSize : Nat) (probabilities : Nat → Nat → Nat → ℚ) (rows : List PathRow)

/-- One position of the loop: a draw for every row, then all masks at once. -/
def samplePosition (position : Nat) (states : List Sampler) : Law (List Sampler) := do
  let sampled ← Law.each (states.mapIdx (fun row state => Law.multinomial vocabSize
    (probabilities row (logitNode (rows.getD row default) position state))))
  pure (sampled.mapIdx (fun row token =>
    advance (rows.getD row default) position (states.getD row default) token))

/-- The loop over the positions. -/
def samplePositions : List Nat → List Sampler → Law (List Sampler)
  | [], states => pure states
  | position :: positions, states => do
      let advanced ← samplePosition vocabSize probabilities rows position states
      samplePositions positions advanced

/-- The draws at the ends of the accepted prefixes, and the results. -/
def sampleBonus (states : List Sampler) : Law (List SampledRow) := do
  let bonus ← Law.each (states.mapIdx (fun row state => Law.multinomial vocabSize
    (probabilities row (bonusNode (rows.getD row default) state))))
  pure (bonus.mapIdx (fun row token =>
    finish (rows.getD row default) (states.getD row default) token))

end batch

/-- `_sample_tree_paths`. The probabilities of a row and a node are
`softmax(logits_processor(None, tree_logits[row, node]))`. -/
def sampleTreePaths (vocabSize : Nat) (trees : List Tree) (treeInputIds : List (List Nat))
    (probabilities : Nat → Nat → Nat → ℚ) : Law (List SampledRow) := do
  let states ← samplePositions vocabSize probabilities (pathRows trees treeInputIds)
    (List.range' 1 (maximum (trees.map (fun tree => tree.retrieve.width)) - 1))
    (trees.map (fun _ => ⟨0, 0, false, 0⟩))
  sampleBonus vocabSize probabilities (pathRows trees treeInputIds) states

/-- The part of a row's results the caller keeps: the path up to its last accepted
node, with its tokens. -/
def SampledRow.accepted (sampled : SampledRow) : SampledRow :=
  { sampled with
    selectedNodes := sampled.selectedNodes.take (sampled.acceptLength + 1)
    selectedTokens := sampled.selectedTokens.take (sampled.acceptLength + 1) }

/-- The tokens a row emits: the accepted ones after the root, then the next token. -/
def SampledRow.emitted (sampled : SampledRow) : List Nat :=
  (sampled.accepted.selectedTokens.tail.map Int.toNat) ++ [sampled.nextToken]

/-- A row's results lie on its tree: the kept nodes are a root path, spelled by the
kept tokens. -/
structure SampledRow.OnTree (sampled : SampledRow) (tree : Tree) (path : List Nat) : Prop where
  length : path.length = sampled.acceptLength + 1
  root : path.head? = some 0
  inside : ∀ node ∈ path, node < tree.width
  rooted : ∀ position node, path[position]? = some node →
    tree.rootPath node = some (path.take (position + 1))
  nodes : sampled.accepted.selectedNodes = path.map Int.ofNat
  tokens : sampled.accepted.selectedTokens = (tree.tokensAt path).map Int.ofNat

/-- The row's tensors hold its own tree. -/
structure PathRow.Reads (row : PathRow) (tree : Tree) : Prop where
  covered : tree.retrieve.rows.length ≤ row.leafValid.length
  leaves : ∀ leaf, row.leafValid.getD leaf false = decide (leaf < tree.retrieve.rows.length)
  retrieve : ∀ leaf < tree.retrieve.rows.length, ∃ padding, row.retrieve.getD leaf [] =
    (tree.path leaf).map Int.ofNat ++ List.replicate padding (-1)
  tokens : ∀ leaf < tree.retrieve.rows.length, ∃ padding, row.pathTokens.getD leaf [] =
    (tree.spelling leaf).map Int.ofNat ++ List.replicate padding (-1)

/-- The packed rows of a batch hold the trees of their own requests. -/
theorem pathRows_reads (trees : List Tree) (padTokenId row current : Nat) (tree : Tree)
    (listed : trees[row]? = some tree) (wellFormed : tree.WellFormed current) :
    ((pathRows trees (packInputIds trees padTokenId)).getD row default).Reads tree := by
  have read : (pathRows trees (packInputIds trees padTokenId)).getD row default =
      { retrieve := padRetrieve (maximum (trees.map (fun tree => tree.retrieve.rows.length)))
          (maximum (trees.map (fun tree => tree.retrieve.width))) tree.retrieve
        leafValid := List.replicate tree.retrieve.rows.length true ++
          List.replicate (maximum (trees.map (fun tree => tree.retrieve.rows.length)) -
            tree.retrieve.rows.length) false
        pathTokens := pathTokens
          (padRetrieve (maximum (trees.map (fun tree => tree.retrieve.rows.length)))
            (maximum (trees.map (fun tree => tree.retrieve.width))) tree.retrieve)
          (tree.tokens ++
            List.replicate (maximum (trees.map Tree.width) - tree.width) padTokenId) } := by
    simp [pathRows, packRetrieveIndices, packInputIds, List.getD_eq_getElem?_getD, listed]
  have retrieved : ∀ leaf < tree.retrieve.rows.length, ∃ padding,
      (padRetrieve (maximum (trees.map (fun tree => tree.retrieve.rows.length)))
        (maximum (trees.map (fun tree => tree.retrieve.width))) tree.retrieve)[leaf]? =
        some ((tree.path leaf).map Int.ofNat ++ List.replicate padding (-1)) := by
    intro leaf inside
    obtain ⟨⟨padding, shape⟩, -, -⟩ := wellFormed.row_path leaf inside
    refine ⟨padding + (maximum (trees.map (fun tree => tree.retrieve.width)) -
      tree.retrieve.width), ?_⟩
    rw [padRetrieve, List.getElem?_append_left (by simpa using inside), List.getElem?_map,
      ← List.replicate_append_replicate, ← List.append_assoc, ← shape]
    simp [List.getD_eq_getElem?_getD, inside]
  rw [read]
  refine ⟨by simp, ?_, ?_, ?_⟩
  · intro leaf
    rw [List.getD_eq_getElem?_getD, List.getElem?_append, List.length_replicate]
    by_cases inside : leaf < tree.retrieve.rows.length
    · simp [inside]
    · simp only [inside, if_false, List.getElem?_replicate, decide_false]
      split <;> rfl
  · intro leaf inside
    obtain ⟨padding, found⟩ := retrieved leaf inside
    exact ⟨padding, by simp [List.getD_eq_getElem?_getD, found]⟩
  · intro leaf inside
    obtain ⟨padding, found⟩ := retrieved leaf inside
    obtain ⟨-, -, bounded⟩ := wellFormed.row_path leaf inside
    refine ⟨padding, ?_⟩
    simp only [pathTokens, List.getD_eq_getElem?_getD, List.getElem?_map, found, Option.map_some,
      Option.getD_some, List.map_append, List.map_map, List.map_replicate, Tree.spelling,
      Tree.tokensAt]
    congr 1
    refine List.map_congr_left (fun node onPath => ?_)
    have genuine : node < tree.tokens.length := bounded node onPath
    simp [List.getElem?_append_left, genuine]

end SpecBlock.Eagle3
