import SpecBlock.Batch.SamplingRow
import SpecBlock.Single.TreeVerify

/-!
# Verification of one request's tree at a temperature

Above its greedy threshold `_tree_verify` walks the retrieve rows level by level. It collects
the rows that start with the accepted tokens, reads the target at the first of them, and tests
the distinct tokens they draft next, in row order; a rejected token loses its probability and the
rest is normalised again. The next token is drawn from what the rejections of the last level
left, or from the target at the end of the accepted path.

Three tests choose the branches: the threshold chooses the acceptance, the sign of the
temperature chooses how the next token is drawn, and a sum that is not positive falls back to the
target. Between zero and the threshold the greedy acceptance hands logits to the draw.

`torch.softmax` is a parameter; it is only assumed to give a distribution. Draws are exact.
-/

namespace SpecBlock.Single

open Batch

variable {H : Type}

/-- The threshold of the greedy acceptance, `1e-5`. -/
def greedyThreshold : ℚ := 1 / 100000

/-- `torch.argmax` over the vocabulary: the first of the greatest entries. -/
def argmaxToken (vocabSize : Nat) (weights : Nat → ℚ) : Nat :=
  ((List.range vocabSize).find? (fun token =>
    (List.range vocabSize).all (fun other => weights other ≤ weights token))).getD 0

/-- `torch.multinomial` of one sample: negative weights are an error. -/
def torchMultinomial (vocabSize : Nat) (weights : Nat → ℚ) : Law (Except String Nat) :=
  if (List.range vocabSize).any (fun token => weights token < 0) then
    pure (.error "probability tensor contains either `inf`, `nan` or element < 0")
  else Law.multinomial vocabSize weights >>= fun token => pure (.ok token)

section walk

variable (vocabSize : Nat) (softmax : (Nat → ℚ) → Nat → ℚ) (logits : Nat → Nat → ℚ)
  (temperature : ℚ) (tree : Tree)

/-- The node whose logits a position of a retrieve row reads. -/
def nodeAt (row position : Nat) : Nat :=
  (safeRow (tree.width - 1) (tree.retrieve.rows.getD row [])).getD position 0

/-- `candidates`: the draft tokens along a retrieve row. -/
def candidates (row : Nat) : List Int :=
  candidateRow tree.width tree.tokens (tree.retrieve.rows.getD row [])

/-- The target's distribution at a node. -/
def tempered (node : Nat) : Nat → ℚ := softmax (fun token => logits node token / temperature)

/-- Progress of the sampling branch; `gtp` is what the last level left of the target. -/
structure SampleWalk where
  acceptLength : Nat
  acceptCand : List Int
  bestCandidate : Nat
  adjustFlag : Bool
  gtp : Nat → ℚ

/-- Take a rejected token out of the target and normalise what is left, if anything is. -/
def rejectToken (gtp : Nat → ℚ) (token : Nat) : Nat → ℚ :=
  let struck := fun other => if other = token then 0 else gtp other
  let gtpSum := ∑ other ∈ Finset.range vocabSize, struck other
  if 0 < gtpSum then fun other => struck other / gtpSum else struck

/-- Test the distinct next tokens of the matching rows, in row order. -/
def tryRows (level : Nat) (isEq : Nat → Bool) :
    List Nat → List Int → SampleWalk → Law SampleWalk
  | [], _, walk => pure walk
  | row :: rows, candidatesSet, walk =>
    let x := (candidates tree row).getD level (-1)
    if isEq row = true ∧ x ∉ candidatesSet ∧ x ≠ -1 then do
      let take ← Law.uniformLe (walk.gtp x.toNat)
      if take then
        pure { walk with
          acceptLength := walk.acceptLength + 1
          acceptCand := walk.acceptCand ++ [x]
          bestCandidate := row }
      else
        tryRows level isEq rows (candidatesSet ++ [x]) { walk with
          gtp := rejectToken vocabSize walk.gtp x.toNat
          adjustFlag := true }
    else tryRows level isEq rows candidatesSet walk

/-- One level of the walk. Levels after one that accepted nothing do not take part, as after the
source's `break`. -/
def sampleLevel (level : Nat) (walk : SampleWalk) : Law SampleWalk :=
  if level ≠ walk.acceptLength then pure walk
  else
    let isEq := fun row => (candidates tree row).take walk.acceptLength == walk.acceptCand
    let fi := ((List.range tree.retrieve.rows.length).find? isEq).getD 0
    tryRows vocabSize tree level isEq (List.range tree.retrieve.rows.length) [] { walk with
      adjustFlag := false
      gtp := tempered softmax logits temperature (nodeAt tree fi (level - 1)) }

/-- The walk starts with the root accepted. -/
def startWalk : SampleWalk where
  acceptLength := 1
  acceptCand := (candidates tree 0).take 1
  bestCandidate := 0
  adjustFlag := false
  gtp := fun _ => 0

/-- All levels of the walk. -/
def sampleWalk : Law SampleWalk :=
  Law.sequential (sampleLevel vocabSize softmax logits temperature tree)
    (List.range' 1 (tree.retrieve.width - 1)) (startWalk tree)

/-- `sample_p` of the sampling branch. -/
def sampleP (walk : SampleWalk) : Nat → ℚ :=
  if walk.adjustFlag = true ∧ walk.acceptLength ≠ tree.retrieve.width then walk.gtp
  else tempered softmax logits temperature (nodeAt tree walk.bestCandidate (walk.acceptLength - 1))

/-- Draw the next token. -/
def drawNext (sampleP : Nat → ℚ) (node : Nat) : Law (Except String Nat) :=
  if 0 < temperature then
    if 0 < ∑ token ∈ Finset.range vocabSize, sampleP token then torchMultinomial vocabSize sampleP
    else torchMultinomial vocabSize (tempered softmax logits temperature node)
  else pure (.ok (argmaxToken vocabSize sampleP))

end walk

/-- What is read off the selected row once the next token is drawn. -/
def decided (tree : Tree) (hidden : Nat → List H) (acceptLength bestCandidate nextToken : Nat) :
    Accepted H :=
  let row := tree.retrieve.rows.getD bestCandidate []
  let pathIndices := (row.tail.take acceptLength).filter (fun index => 0 ≤ index)
  let selectIndices := (row.take (acceptLength + 1)).filter (fun index => 0 ≤ index)
  { acceptLength := acceptLength
    acceptedTokenIds := pathIndices.map (fun index => tree.tokens.getD index.toNat 0)
    nextToken := nextToken
    hidden := selectIndices.map (fun index => hidden index.toNat)
    bestCandidate := bestCandidate
    selectedPathIndices := selectIndices }

/-- `_tree_verify` at a temperature, as a law over its results. -/
def sampledVerify (acceptTopk vocabSize : Nat) (softmax : (Nat → ℚ) → Nat → ℚ)
    (logits : Nat → Nat → ℚ) (topk : Nat → List Nat) (temperature : ℚ) (tree : Tree)
    (hidden : Nat → List H) : Law (Except String (Accepted H)) :=
  if temperature ≤ greedyThreshold then do
    let greedy := treeVerify acceptTopk tree (fun node => argmaxToken vocabSize (logits node)) topk
      hidden
    let node := nodeAt tree greedy.bestCandidate greedy.acceptLength
    let next ← drawNext vocabSize softmax logits temperature (logits node) node
    pure (next.map (decided tree hidden greedy.acceptLength greedy.bestCandidate))
  else do
    let walk ← sampleWalk vocabSize softmax logits temperature tree
    let acceptLength := walk.acceptLength - 1
    let next ← drawNext vocabSize softmax logits temperature
      (sampleP softmax logits temperature tree walk) (nodeAt tree walk.bestCandidate acceptLength)
    pure (next.map (decided tree hidden acceptLength walk.bestCandidate))

end SpecBlock.Single
