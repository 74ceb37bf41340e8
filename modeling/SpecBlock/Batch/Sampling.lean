import SpecBlock.Foundation.FiniteLaw
import SpecBlock.Foundation.Rows
import SpecBlock.Batch.Acceptance

/-!
# Speculative sampling over a padded request batch

`_accept_sampling_batch` walks all active trees level by level. At each level the
rows still walking are compacted for the target's head; each of them offers its
distinct child tokens in retrieve-row order, accepting one with its probability
conditioned on the earlier rejections. A row that rejects everything samples its
next token from what the rejections left; a row that runs out of levels samples
it from the target at its last node.

Draws are exact: a comparison of an ideal uniform number and a choice by
normalised weights. Probabilities are rationals, indexed by row, node and token;
everything else follows the tensors.
-/

namespace SpecBlock.Batch

variable {H : Type}

/-- `torch.finfo(torch.float32).tiny`. -/
def float32Tiny : ℚ := 1 / 2 ^ 126

/-- Padded tensors of one request: node paths, their tokens, and the own shape. -/
structure StagedRow where
  retrieve : List (List Int)
  candidates : List (List Int)
  pathCount : Nat
  pathWidth : Nat
  localTreeWidth : Nat
  deriving Inhabited

/-- Real entries of the retrieve tensor. -/
def validRetrieve (localTreeWidth : Nat) (index : Int) : Bool :=
  decide (0 ≤ index) && decide (index < localTreeWidth)

/-- Stage one request; an unusable index selects the appended `-1`. -/
def stageRow (treeWidth maxPaths maxPathWidth : Nat) (tree : Tree) (inputIds : List Nat) :
    StagedRow :=
  let retrieve := padRetrieve maxPaths maxPathWidth tree.retrieve
  { retrieve := retrieve
    candidates := retrieve.map (fun row => row.map (fun index =>
      (inputIds.map Int.ofNat ++ [-1]).getD
        (if validRetrieve tree.width index then index.toNat else treeWidth) (-1)))
    pathCount := tree.retrieve.rows.length
    pathWidth := tree.retrieve.width
    localTreeWidth := tree.width }

/-- Progress of one row; it is terminal once its next token is drawn. -/
structure SampleState where
  acceptedWidth : Nat
  bestCandidate : Nat
  nextToken : Option Nat
  deriving Inhabited

/-- Whether a row takes part in a level. -/
def eligible (staged : StagedRow) (depth : Nat) (state : SampleState) : Bool :=
  state.nextToken.isNone && decide (state.acceptedWidth = depth) &&
    decide (depth < staged.pathWidth)

section level

variable (vocabSize : Nat) (staged : StagedRow) (depth best : Nat)

/-- Paths that agree with the best candidate above the level. -/
def matching (path : Nat) : Bool :=
  decide (path < staged.pathCount) &&
    (staged.candidates.getD path []).take depth == (staged.candidates.getD best []).take depth

/-- The first matching path, and the node it has reached. -/
def currentNode (maxPaths : Nat) : Nat :=
  let firstMatch := ((List.range maxPaths).find? (matching staged depth best)).getD 0
  ((staged.retrieve.getD firstMatch []).getD (depth - 1) (-1)).toNat

/-- A path's token at the level. -/
def siblingToken (path : Nat) : Int := (staged.candidates.getD path []).getD depth (-1)

/-- Whether an earlier matching path has the same token. -/
def seenEarlier (path : Nat) : Bool :=
  (List.range path).any (fun earlier =>
    matching staged depth best earlier &&
      siblingToken staged depth earlier == siblingToken staged depth path)

/-- Paths offered at the level. -/
def proposal (path : Nat) : Bool :=
  matching staged depth best path &&
    validRetrieve staged.localTreeWidth ((staged.retrieve.getD path []).getD depth (-1)) &&
    (decide (0 ≤ siblingToken staged depth path) &&
      decide (siblingToken staged depth path < vocabSize)) &&
    !seenEarlier staged depth best path

/-- Proposed tokens; other paths read token zero. -/
def safeToken (path : Nat) : Nat :=
  if proposal vocabSize staged depth best path then (siblingToken staged depth path).toNat else 0

end level

/-- Running values of the offers of one level. -/
structure Offers where
  chosen : Bool
  chosenPath : Nat
  remaining : ℚ
  rejected : List Nat

/-- Offer the paths in order until one is taken. -/
def offerPaths (offered : Nat → Bool) (probability : Nat → ℚ) : List Nat → Offers → Law Offers
  | [], offers => pure offers
  | path :: paths, offers =>
      if offered path && !offers.chosen then do
        let take ← Law.uniformLe (probability path / max offers.remaining float32Tiny)
        offerPaths offered probability paths
          (if take then { offers with chosen := true, chosenPath := path }
          else { offers with
            remaining := max (offers.remaining - probability path) 0
            rejected := offers.rejected ++ [path] })
      else offerPaths offered probability paths offers

/-- Weights left by the rejected tokens, the original ones when nothing is left. -/
def residual (vocabSize : Nat) (probabilities : Nat → ℚ) (rejected : List Nat) : Nat → ℚ :=
  let failed := fun token => if token ∈ rejected then 0 else probabilities token
  if 0 < ∑ token ∈ Finset.range vocabSize, failed token then failed else probabilities

/-- One level of an eligible row. -/
def rowLevel (vocabSize maxPaths : Nat) (probabilities : Nat → ℚ) (staged : StagedRow)
    (depth : Nat) (state : SampleState) : Law SampleState := do
  let token := safeToken vocabSize staged depth state.bestCandidate
  let offers ← offerPaths (proposal vocabSize staged depth state.bestCandidate)
    (fun path => probabilities (token path)) (List.range maxPaths)
    ⟨false, state.bestCandidate, 1, []⟩
  if offers.chosen then
    pure { state with
      acceptedWidth := state.acceptedWidth + 1
      bestCandidate := offers.chosenPath }
  else do
    let next ← Law.multinomial vocabSize
      (residual vocabSize probabilities (offers.rejected.map token))
    pure { state with nextToken := some next }

/-- One level of the batch. Probabilities are computed for eligible rows only and
read back through the position of a row among them. -/
def levelStep (vocabSize maxPaths : Nat) (probabilities : Nat → Nat → Nat → ℚ)
    (rows : List StagedRow) (depth : Nat) (states : List SampleState) : Law (List SampleState) :=
  let rowIds := (List.range states.length).filter (fun row =>
    eligible (rows.getD row default) depth (states.getD row default))
  let compact := rowIds.map (fun row => probabilities row
    (currentNode (rows.getD row default) depth (states.getD row default).bestCandidate maxPaths))
  Law.each (states.mapIdx (fun row state =>
    if eligible (rows.getD row default) depth state then
      rowLevel vocabSize maxPaths (compact.getD (rowIds.idxOf row) (fun _ => 0))
        (rows.getD row default) depth state
    else pure state))

/-- All levels, from depth one. -/
def levels (vocabSize maxPaths : Nat) (probabilities : Nat → Nat → Nat → ℚ)
    (rows : List StagedRow) : List Nat → List SampleState → Law (List SampleState)
  | [], states => pure states
  | depth :: depths, states => do
      let states ← levelStep vocabSize maxPaths probabilities rows depth states
      levels vocabSize maxPaths probabilities rows depths states

/-- Draw the next token of a row that no level finished. -/
def finishRow (vocabSize : Nat) (probabilities : Nat → Nat → ℚ) (staged : StagedRow)
    (state : SampleState) : Law SampleState :=
  match state.nextToken with
  | some _ => pure state
  | none => do
      let node := ((staged.retrieve.getD state.bestCandidate []).getD
        (state.acceptedWidth - 1) (-1)).toNat
      let next ← Law.multinomial vocabSize (probabilities node)
      pure { state with nextToken := some next }

/-- Read one row's result off its final state. -/
def collectRow (staged : StagedRow) (inputIds : List Nat) (hiddenSources : List (List H))
    (state : SampleState) : Except String (Accepted H) :=
  let acceptLength := state.acceptedWidth - 1
  let path := staged.retrieve.getD state.bestCandidate []
  if (path.take (acceptLength + 1)).any (fun index => index < 0) then
    .error "sampled path contains padded tree indices"
  else
    .ok { acceptLength := acceptLength
          acceptedTokenIds := (path.tail.map (fun (index : Int) =>
            inputIds.getD index.toNat 0)).take acceptLength
          nextToken := state.nextToken.getD 0
          hidden := (path.map (fun (index : Int) =>
            hiddenSources.filterMap (fun source => source[index.toNat]?))).take (acceptLength + 1)
          bestCandidate := state.bestCandidate
          selectedPathIndices := path.take (acceptLength + 1) }

/-- `_accept_sampling_batch`: the law of its result. -/
def acceptSamplingBatch (vocabSize : Nat) (active : List Tree) (packed : PackedTrees)
    (probabilities : Nat → Nat → Nat → ℚ) (hiddenSources : List (List (List H))) :
    Law (Except String (List (Accepted H))) :=
  let staged := List.replicate packed.inputIds.length packed.treeWidth
  if active.length ≠ packed.inputIds.length then
    pure (.error "sampling batch and positive temperature are required")
  else if hiddenSources.length ≠ 3 ∨
      hiddenSources.any (fun source => source.map List.length != staged) then
    pure (.error "target hidden sources must match the sampled tree")
  else do
    let maxPaths := maximum (active.map (fun tree => tree.retrieve.rows.length))
    let maxPathWidth := maximum (active.map (fun tree => tree.retrieve.width))
    let rows := active.mapIdx (fun row tree =>
      stageRow packed.treeWidth maxPaths maxPathWidth tree (packed.inputIds.getD row []))
    let states ← levels vocabSize maxPaths probabilities rows (List.range' 1 (maxPathWidth - 1))
      (rows.map (fun _ => ⟨1, 0, none⟩))
    let states ← Law.each (states.mapIdx (fun row state =>
      finishRow vocabSize (probabilities row) (rows.getD row default) state))
    pure (states.zipIdx.mapM (fun entry =>
      collectRow (rows.getD entry.2 default) (packed.inputIds.getD entry.2 [])
        (hiddenSources.map (fun source => source.getD entry.2 [])) entry.1))

end SpecBlock.Batch
