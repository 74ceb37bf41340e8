import SpecBlock.Batch.Sampling

/-!
# Batched and scalar sampling from given uniform numbers

Here both acceptance rules of speculative sampling read their uniform numbers from a table by
level and retrieve row, and choose the next token by a given choice from weights. `_accept_sampling_batch`
compacts the rows that still walk and masks everything else; `_accept_single_sampling` loops over
the levels and the matching rows of one request and leaves the loops early.

The batched rule divides by what is left clamped at the smallest normal number, the scalar one by
what is left. The batched rule ends a row inside a level; the scalar one decides after the loops
whether the target has to be read again, by the flag of the last level.
-/

namespace SpecBlock.Batch

variable {H : Type}

/-- Uniform numbers by level and retrieve row. -/
abbrev Uniforms := Nat → Nat → ℚ

/-- An accepted path and the weights the next token is chosen from. -/
structure Sampled (H : Type) where
  accepted : Accepted H
  weights : Nat → ℚ

section batched

/-- Offer the paths in order until one is taken. -/
def takePaths (offered : Nat → Bool) (probability uniforms : Nat → ℚ) : List Nat → Offers → Offers
  | [], offers => offers
  | path :: paths, offers =>
    if offered path && !offers.chosen then
      if uniforms path ≤ probability path / max offers.remaining float32Tiny then
        takePaths offered probability uniforms paths { offers with chosen := true, chosenPath := path }
      else
        takePaths offered probability uniforms paths { offers with
          remaining := max (offers.remaining - probability path) 0
          rejected := offers.rejected ++ [path] }
    else takePaths offered probability uniforms paths offers

/-- Progress of one row; it is terminal once the weights of its next token are known. -/
structure WeighedState where
  acceptedWidth : Nat
  bestCandidate : Nat
  weights : Option (Nat → ℚ)
  deriving Inhabited

/-- Whether a row takes part in a level. -/
def takesPart (staged : StagedRow) (depth : Nat) (state : WeighedState) : Bool :=
  state.weights.isNone && decide (state.acceptedWidth = depth) && decide (depth < staged.pathWidth)

/-- One level of a row that takes part. -/
def rowLevelAt (vocabSize maxPaths : Nat) (probabilities : Nat → ℚ) (uniforms : Uniforms)
    (staged : StagedRow) (depth : Nat) (state : WeighedState) : WeighedState :=
  let token := safeToken vocabSize staged depth state.bestCandidate
  let offers := takePaths (proposal vocabSize staged depth state.bestCandidate)
    (fun path => probabilities (token path)) (uniforms depth) (List.range maxPaths)
    ⟨false, state.bestCandidate, 1, []⟩
  if offers.chosen then
    { state with
      acceptedWidth := state.acceptedWidth + 1
      bestCandidate := offers.chosenPath }
  else
    { state with weights := some (residual vocabSize probabilities (offers.rejected.map token)) }

/-- One level of the batch. Probabilities are computed for the rows that take part and read back
through the position of a row among them. -/
def levelStepAt (vocabSize maxPaths : Nat) (probabilities : Nat → Nat → Nat → ℚ)
    (uniforms : Nat → Uniforms) (rows : List StagedRow) (depth : Nat) (states : List WeighedState) :
    List WeighedState :=
  let rowIds := (List.range states.length).filter (fun row =>
    takesPart (rows.getD row default) depth (states.getD row default))
  let compact := rowIds.map (fun row => probabilities row
    (currentNode (rows.getD row default) depth (states.getD row default).bestCandidate maxPaths))
  states.mapIdx (fun row state =>
    if takesPart (rows.getD row default) depth state then
      rowLevelAt vocabSize maxPaths (compact.getD (rowIds.idxOf row) (fun _ => 0)) (uniforms row)
        (rows.getD row default) depth state
    else state)

/-- All levels. -/
def levelsAt (vocabSize maxPaths : Nat) (probabilities : Nat → Nat → Nat → ℚ)
    (uniforms : Nat → Uniforms) (rows : List StagedRow) (depths : List Nat)
    (states : List WeighedState) : List WeighedState :=
  depths.foldl (fun states depth =>
    levelStepAt vocabSize maxPaths probabilities uniforms rows depth states) states

/-- The weights of a row's next token; a row that no level ended reads the target at its last
node. -/
def finalWeights (probabilities : Nat → Nat → ℚ) (staged : StagedRow) (state : WeighedState) :
    Nat → ℚ :=
  state.weights.getD (probabilities
    ((staged.retrieve.getD state.bestCandidate []).getD (state.acceptedWidth - 1) (-1)).toNat)

/-- Read one row's result off its final state. -/
def collectWeighed (probabilities : Nat → Nat → ℚ) (choose : (Nat → ℚ) → Nat) (staged : StagedRow)
    (inputIds : List Nat) (hiddenSources : List (List H)) (state : WeighedState) :
    Except String (Sampled H) :=
  let weights := finalWeights probabilities staged state
  (collectRow staged inputIds hiddenSources
    ⟨state.acceptedWidth, state.bestCandidate, some (choose weights)⟩).map (⟨·, weights⟩)

/-- `_accept_sampling_batch` on given uniform numbers and choices of every row. -/
def acceptSamplingBatchAt (vocabSize : Nat) (active : List Tree) (packed : PackedTrees)
    (probabilities : Nat → Nat → Nat → ℚ) (hiddenSources : List (List (List H)))
    (uniforms : Nat → Uniforms) (choose : Nat → (Nat → ℚ) → Nat) :
    Except String (List (Sampled H)) :=
  let staged := List.replicate packed.inputIds.length packed.treeWidth
  if active.length ≠ packed.inputIds.length then
    .error "sampling batch and positive temperature are required"
  else if hiddenSources.length ≠ 3 ∨
      hiddenSources.any (fun source => source.map List.length != staged) then
    .error "target hidden sources must match the sampled tree"
  else
    let maxPaths := maximum (active.map (fun tree => tree.retrieve.rows.length))
    let maxPathWidth := maximum (active.map (fun tree => tree.retrieve.width))
    let rows := active.mapIdx (fun row tree =>
      stageRow packed.treeWidth maxPaths maxPathWidth tree (packed.inputIds.getD row []))
    let states := levelsAt vocabSize maxPaths probabilities uniforms rows
      (List.range' 1 (maxPathWidth - 1)) (rows.map (fun _ => ⟨1, 0, none⟩))
    states.zipIdx.mapM (fun entry =>
      collectWeighed (probabilities entry.2) (choose entry.2) (rows.getD entry.2 default)
        (packed.inputIds.getD entry.2 []) (hiddenSources.map (fun source => source.getD entry.2 []))
        entry.1)

end batched

section scalar

/-- Distinct tokens that the matching rows draft next, each with its first row. -/
def collectChoices (tokenAt : Nat → Int) : List Nat → List Int → List (Nat × Nat)
  | [], _ => []
  | path :: paths, seenTokens =>
    let token := tokenAt path
    if token < 0 ∨ token ∈ seenTokens then collectChoices tokenAt paths seenTokens
    else (path, token.toNat) :: collectChoices tokenAt paths (token :: seenTokens)

/-- Running values of the trials of one level. -/
structure Trials where
  accepted : Option (Nat × Nat)
  remainingProbability : ℚ
  rejectedTokens : List Nat
  adjusted : Bool

/-- Try the choices in order until one is accepted. -/
def tryChoices (probability uniforms : Nat → ℚ) : List (Nat × Nat) → Trials → Trials
  | [], trials => trials
  | (path, token) :: choices, trials =>
    let conditionalProbability :=
      if 0 < trials.remainingProbability then probability token / trials.remainingProbability else 0
    if uniforms path ≤ conditionalProbability then { trials with accepted := some (path, token) }
    else
      tryChoices probability uniforms choices { trials with
        rejectedTokens := trials.rejectedTokens ++ [token]
        remainingProbability := max 0 (trials.remainingProbability - probability token)
        adjusted := true }

/-- Progress of the scalar walk. -/
structure SingleWalk where
  acceptedWidth : Nat
  acceptedPrefix : List Int
  bestCandidate : Nat
  adjusted : Bool
  sampleP : Option (Nat → ℚ)

/-- The target at a position of a retrieve row. -/
def projectPathNode (probabilities : Nat → Nat → ℚ) (retrieve : List (List Int))
    (pathIdx depthIdx : Nat) : Except String (Nat → ℚ) :=
  let treeIndex := (retrieve.getD pathIdx []).getD depthIdx (-1)
  if treeIndex < 0 then .error "cannot project a padded sampled path node"
  else .ok (probabilities treeIndex.toNat)

/-- One level of the scalar walk. Levels after one that accepted nothing do not take part, as
after the source's `break`. -/
def singleLevel (vocabSize : Nat) (probabilities : Nat → Nat → ℚ) (uniforms : Uniforms)
    (retrieve candidates : List (List Int)) (walk : SingleWalk) (depth : Nat) :
    Except String SingleWalk :=
  if depth ≠ walk.acceptedWidth then .ok walk
  else
    let matchingRows := (List.range candidates.length).filter
      (fun path => (candidates.getD path []).take walk.acceptedWidth == walk.acceptedPrefix)
    match matchingRows with
    | [] => .error "sampled prefix has no matching tree path"
    | firstMatch :: _ => do
      let sampleP ← projectPathNode probabilities retrieve firstMatch (depth - 1)
      let choices := collectChoices (fun path => (candidates.getD path []).getD depth (-1))
        matchingRows []
      if choices.any (fun choice => vocabSize ≤ choice.2) then
        .error "index out of range in self"
      else
        let trials := tryChoices sampleP (uniforms depth) choices ⟨none, 1, [], false⟩
        return match trials.accepted with
          | some (path, token) => {
              acceptedWidth := walk.acceptedWidth + 1
              acceptedPrefix := walk.acceptedPrefix ++ [(token : Int)]
              bestCandidate := path
              adjusted := trials.adjusted
              sampleP := some sampleP }
          | none => { walk with
              adjusted := trials.adjusted
              sampleP := some (if trials.adjusted = true ∧ 0 < trials.remainingProbability then
                fun token => if token ∈ trials.rejectedTokens then 0 else sampleP token
                else sampleP) }

/-- `_accept_single_sampling` on given uniform numbers and a given choice. -/
def acceptSingleSampling (vocabSize : Nat) (active : List Tree) (treeInputIds : List (List Nat))
    (probabilities : Nat → Nat → ℚ) (hiddenSources : List (List (List H))) (uniforms : Uniforms)
    (choose : (Nat → ℚ) → Nat) : Except String (List (Sampled H)) :=
  match active, treeInputIds with
  | [tree], [inputIds] =>
    if hiddenSources.length ≠ 3 ∨
        hiddenSources.any (fun source => source.map List.length != [inputIds.length]) then
      .error "target hidden sources must match the sampled tree"
    else do
      let retrieve := tree.retrieve.rows
      let candidates := retrieve.map (fun row => row.map (fun index =>
        (inputIds.map Int.ofNat ++ [-1]).getD
          (if 0 ≤ index then index.toNat else inputIds.length) (-1)))
      let walk ← (List.range' 1 (tree.retrieve.width - 1)).foldlM
        (singleLevel vocabSize probabilities uniforms retrieve candidates)
        ⟨1, [(candidates.getD 0 []).getD 0 (-1)], 0, false, none⟩
      let acceptLength := walk.acceptedWidth - 1
      let weights ← match walk.sampleP with
        | none => projectPathNode probabilities retrieve walk.bestCandidate acceptLength
        | some sampleP =>
          if walk.adjusted = false ∨ walk.acceptedWidth = tree.retrieve.width then
            projectPathNode probabilities retrieve walk.bestCandidate acceptLength
          else .ok sampleP
      let selectedPath := (retrieve.getD walk.bestCandidate []).take (acceptLength + 1)
      if selectedPath.any (fun index => index < 0) then
        .error "sampled path contains padded tree indices"
      else
        return [⟨{
          acceptLength := acceptLength
          acceptedTokenIds := walk.acceptedPrefix.tail.map Int.toNat
          nextToken := choose weights
          hidden := selectedPath.map (fun index =>
            hiddenSources.filterMap (fun source => (source.getD 0 [])[index.toNat]?))
          bestCandidate := walk.bestCandidate
          selectedPathIndices := selectedPath }, weights⟩]
  | _, _ => .error "SpecBlock sampling requires exactly one active request"

end scalar

end SpecBlock.Batch
