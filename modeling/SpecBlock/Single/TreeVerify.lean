import SpecBlock.Batch.GreedyPath

/-!
# Verification of one request's tree

`_tree_verify` serves the single-request loop. It reads `retrieve_indices` with
the negative indexing of tensors: an entry `-1` selects the last node's logits
and the sentinel appended to the draft tokens, so agreements are those of the
batched acceptance on an unpadded row. It raises no error of its own and drops
negative entries of the selected path instead.

On well-formed trees both return the same decision, and it is the greedy path
of the tree: the row is the first leaf that agrees longest.
-/

namespace SpecBlock.Single

open Batch

variable {H : Type}

/-- `_tree_verify` at temperature zero. The target's logits enter through their
argmax and top choices at every node. -/
def treeVerify (acceptTopk : Nat) (tree : Tree) (argmax : Nat → Nat) (topk : Nat → List Nat)
    (hidden : Nat → List H) : Accepted H :=
  let nodes := List.range tree.width
  let acceptLengths := pathAcceptLengths acceptTopk (tree.width - 1) tree.width tree.tokens
    (nodes.map argmax) (nodes.map topk) tree.retrieve.rows
  let acceptLength := maximum acceptLengths
  let bestCandidate := if acceptLength = 0 then 0 else argmaxFirst acceptLengths
  let row := tree.retrieve.rows.getD bestCandidate []
  let pathIndices := (row.tail.take acceptLength).filter (fun index => 0 ≤ index)
  let selectIndices := (row.take (acceptLength + 1)).filter (fun index => 0 ≤ index)
  { acceptLength := acceptLength
    acceptedTokenIds := pathIndices.map (fun index => tree.tokens.getD index.toNat 0)
    nextToken := (nodes.map argmax).getD ((safeRow (tree.width - 1) row).getD acceptLength 0) 0
    hidden := selectIndices.map (fun index => hidden index.toNat)
    bestCandidate := bestCandidate
    selectedPathIndices := selectIndices }

theorem padRetrieve_self (retrieve : RetrieveIndices) :
    padRetrieve retrieve.rows.length retrieve.width retrieve = retrieve.rows := by
  simp [padRetrieve]

theorem acceptSelected_ok (inputIds argmax : List Nat) (hiddenSources : List (List H))
    (count best : Nat) (selectedPath : List Int) (accepted : Accepted H)
    (result : acceptSelected inputIds argmax hiddenSources count best selectedPath = .ok accepted) :
    accepted.acceptLength = count ∧
      accepted.nextToken = argmax.getD (selectedPath.getD count (-1)).toNat 0 ∧
      accepted.selectedPathIndices = selectedPath.take (count + 1) := by
  simp only [acceptSelected] at result
  split at result
  · cases result
  · split at result
    · cases result
    · obtain rfl := Except.ok.inj result
      exact ⟨rfl, rfl, rfl⟩

/-- The first best row, with the source's special case for no acceptance. -/
theorem best_eq (lengths : List Nat) :
    (if maximum lengths = 0 then 0 else argmaxFirst lengths) = argmaxFirst lengths := by
  split
  next zero => exact (argmaxFirst_zero lengths zero).symm
  next => rfl

/-- On a well-formed tree the selected row is the best leaf, accepted as far as its path agrees. -/
theorem treeVerify_agrees {tree : Tree} {current : Nat} (wellFormed : tree.WellFormed current)
    (argmax : Nat → Nat) (topk : Nat → List Nat) (hidden : Nat → List H) :
    (treeVerify 1 tree argmax topk hidden).bestCandidate = bestLeaf tree argmax ∧
      (treeVerify 1 tree argmax topk hidden).acceptLength =
        agreement tree argmax (bestLeaf tree argmax) := by
  have scores := pathAcceptLengths_eq argmax ((List.range tree.width).map topk) (tree.width - 1) wellFormed
  simp only [treeVerify, best_eq, scores]
  exact ⟨rfl, (@bestLeaf_spec tree argmax _ wellFormed).2⟩

/-- On a well-formed tree the decision is a greedy root path: the batched
acceptance of the unpadded row decides the same. -/
theorem treeVerify_spec (tree : Tree) (current : Nat) (argmax : Nat → Nat)
    (topk : Nat → List Nat) (hidden : Nat → List H) (wellFormed : tree.WellFormed current) :
    ∃ path, (treeVerify 1 tree argmax topk hidden).OnTree tree path ∧
      (treeVerify 1 tree argmax topk hidden).Greedy tree argmax path := by
  obtain ⟨accepted, path, result, onTree, greedy⟩ := acceptRow_spec 1 tree.width
    tree.retrieve.rows.length tree.retrieve.width tree current tree.tokens
    ((List.range tree.width).map argmax) ((List.range tree.width).map topk) ([] : List (List H))
    wellFormed rfl (Nat.le_refl _) (fun _ _ => rfl)
  simp only [acceptRow, padRetrieve_self] at result
  obtain ⟨count, -, indices⟩ := acceptSelected_ok _ _ _ _ _ _ _ result
  simp only [treeVerify, best_eq]
  generalize pathAcceptLengths 1 (tree.width - 1) tree.width tree.tokens
    ((List.range tree.width).map argmax) ((List.range tree.width).map topk)
    tree.retrieve.rows = lengths at *
  generalize tree.retrieve.rows.getD (argmaxFirst lengths) [] = row at *
  rw [onTree.indices] at indices
  have lengths' : path.length = maximum lengths + 1 := by rw [onTree.length, count]
  have nonnegative : ∀ nodes : List Nat,
      (nodes.map Int.ofNat).filter (fun index => decide (0 ≤ index)) = nodes.map Int.ofNat := by
    intro nodes
    apply List.filter_eq_self.mpr
    simp
  have selected : (row.take (maximum lengths + 1)).filter (fun index => decide (0 ≤ index)) =
      path.map Int.ofNat := by
    rw [← indices, nonnegative]
  have tail : (row.tail.take (maximum lengths)).filter (fun index => decide (0 ≤ index)) =
      path.tail.map Int.ofNat := by
    have shifted : row.tail.take (maximum lengths) = (row.take (maximum lengths + 1)).tail := by
      rw [List.tail_take_eq_take_tail, Nat.add_sub_cancel]
    rw [shifted, ← indices, ← List.map_tail, nonnegative]
  have atEnd : row[maximum lengths]? = some ((path[maximum lengths] : Nat) : Int) := by
    have read : (row.take (maximum lengths + 1))[maximum lengths]? =
        row[maximum lengths]? := by simp
    rw [← read, ← indices]
    simp [lengths']
  have node : (safeRow (tree.width - 1) row).getD (maximum lengths) 0 = path[maximum lengths] := by
    simp [safeRow, List.getD_eq_getElem?_getD, atEnd]
  have inside : path[maximum lengths] < tree.width :=
    onTree.inside _ (List.getElem_mem (by omega))
  simp only [selected, tail, node]
  refine ⟨path, ⟨rfl, lengths', onTree.root, onTree.inside, ?_, onTree.prefixes⟩, ?_, ?_⟩
  · simp only [Tree.tokensAt, List.map_map]
    rfl
  · intro position parent child atParent atChild
    have real : parent < tree.width := onTree.inside parent (List.mem_of_getElem? atParent)
    rw [(greedy rfl).chosen position parent child atParent atChild]
    simp [List.getD_eq_getElem?_getD, real]
  · intro last atLast
    rw [List.getLast?_eq_getElem?, lengths', Nat.add_sub_cancel,
      List.getElem?_eq_getElem (by omega)] at atLast
    obtain rfl := Option.some.inj atLast
    simp [List.getD_eq_getElem?_getD, inside]

end SpecBlock.Single
