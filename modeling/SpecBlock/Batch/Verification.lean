import SpecBlock.Batch.Acceptance
import SpecBlock.Foundation.Rows

/-!
# One verification of a staged batch

The target model reads the packed trees of all active requests at once. Its
decisions are projected at real nodes only; padded cells of the staged arrays
hold zeros. `_accept_active_batch` then decides every request.

`Forward` is what the target returns for a staged batch, as functions of a row
and a node. Nothing is assumed about it here.
-/

namespace SpecBlock.Batch

variable {H : Type}

/-- Target outputs at the nodes of a staged batch. -/
structure Forward (H : Type) where
  argmax : Nat → Nat → Nat
  topk : Nat → Nat → List Nat
  hidden : Nat → Nat → Nat → H

/-- A staged array: real nodes read the target, padded cells hold a filler. -/
def stage {σ : Type} (widths : List Nat) (treeWidth : Nat) (filler : σ) (read : Nat → Nat → σ) :
    List (List σ) :=
  widths.mapIdx (fun row width =>
    (List.range treeWidth).map (fun node => if node < width then read row node else filler))

/-- `_project_tree_decisions`: argmax, and top choices when asked for, at real nodes. -/
def projectTreeDecisions (acceptTopk vocabSize : Nat) (widths : List Nat) (treeWidth : Nat)
    (argmax : Nat → Nat → Nat) (topk : Nat → Nat → List Nat) :
    Except String (List (List Nat) × Option (List (List (List Nat)))) :=
  if widths.any (fun width => width = 0 ∨ treeWidth < width) then
    .error "target tree widths are outside the staged query range"
  else if acceptTopk = 0 ∨ vocabSize < acceptTopk then
    .error "ACCEPT_TOPK must be in [1, vocab_size]"
  else
    .ok (stage widths treeWidth 0 argmax,
      if 1 < acceptTopk then some (stage widths treeWidth (List.replicate acceptTopk 0) topk)
      else none)

/-- `_accept_active_batch`: check the staged shapes, then decide every request. -/
def acceptActiveBatch (acceptTopk : Nat) (active : List Tree) (packed : PackedTrees)
    (nodeArgmax : List (List Nat)) (nodeTopk : Option (List (List (List Nat))))
    (hiddenSources : List (List (List H))) : Except String (List (Accepted H)) :=
  let staged := List.replicate packed.inputIds.length packed.treeWidth
  let maxPaths := maximum (active.map (fun tree => tree.retrieve.rows.length))
  let maxPathWidth := maximum (active.map (fun tree => tree.retrieve.width))
  if nodeArgmax.map List.length ≠ staged then
    .error "target argmax decisions must match the staged tree"
  else if hiddenSources.length ≠ 3 ∨
      hiddenSources.any (fun source => source.map List.length != staged) then
    .error "target hidden sources must match the staged tree"
  else if 1 < acceptTopk ∧
      (nodeTopk.map (List.map (List.map List.length))) ≠
        some (staged.map (fun width => List.replicate width acceptTopk)) then
    .error "target top-k decisions must match ACCEPT_TOPK"
  else
    active.zipIdx.mapM (fun entry =>
      acceptRow acceptTopk packed.treeWidth maxPaths maxPathWidth entry.1
        (packed.inputIds.getD entry.2 []) (nodeArgmax.getD entry.2 [])
        ((nodeTopk.getD []).getD entry.2 [])
        (hiddenSources.map (fun source => source.getD entry.2 [])))

/-- One target pass over the packed trees followed by greedy acceptance. -/
def verifyGreedy (acceptTopk vocabSize padTokenId : Nat) (requests : List (Tree × Nat))
    (forward : Forward H) : Except String (List (Accepted H)) := do
  let packed := packTrees requests padTokenId
  let (nodeArgmax, nodeTopk) ← projectTreeDecisions acceptTopk vocabSize packed.widths
    packed.treeWidth forward.argmax forward.topk
  let hiddenSources := (List.range 3).map (fun source =>
    (List.range requests.length).map (fun row =>
      (List.range packed.treeWidth).map (forward.hidden source row)))
  acceptActiveBatch acceptTopk (requests.map Prod.fst) packed nodeArgmax nodeTopk hiddenSources

theorem stage_lengths {σ : Type} (widths : List Nat) (treeWidth : Nat) (filler : σ)
    (read : Nat → Nat → σ) :
    (stage widths treeWidth filler read).map List.length =
      List.replicate widths.length treeWidth := by
  apply List.ext_getElem (by simp [stage])
  simp [stage]

theorem stage_real (widths : List Nat) (treeWidth : Nat) (read : Nat → Nat → Nat)
    (row width node : Nat) (listed : widths[row]? = some width) (inside : node < width)
    (fits : width ≤ treeWidth) :
    ((stage widths treeWidth 0 read).getD row []).getD node 0 = read row node := by
  have bound : node < treeWidth := by omega
  simp [stage, List.getD_eq_getElem?_getD, listed, bound, inside]

theorem packed_length (requests : List (Tree × Nat)) (padTokenId row : Nat)
    (request : Tree × Nat) (read : requests[row]? = some request) :
    ((packTrees requests padTokenId).inputIds.getD row []).length =
      (packTrees requests padTokenId).treeWidth := by
  have fits := width_le_treeWidth requests padTokenId request (List.mem_of_getElem? read)
  have padded : ((packTrees requests padTokenId).inputIds.getD row []).length =
      request.1.width + ((packTrees requests padTokenId).treeWidth - request.1.width) := by
    simp [packTrees, List.getD_eq_getElem?_getD, read, Tree.width]
  omega

/-- Decisions staged for well-formed trees are accepted without error. Every
result is a root path of its own request's tree that spells its own decisions. -/
theorem acceptActiveBatch_spec (requests : List (Tree × Nat)) (padTokenId : Nat)
    (nodeArgmax : List (List Nat)) (hiddenSources : List (List (List H)))
    (wellFormed : ∀ request ∈ requests, ∃ current, request.1.WellFormed current)
    (decisions : nodeArgmax.map List.length =
      List.replicate requests.length (packTrees requests padTokenId).treeWidth)
    (sources : hiddenSources.length = 3)
    (shapes : ∀ source ∈ hiddenSources, source.map List.length =
      List.replicate requests.length (packTrees requests padTokenId).treeWidth) :
    ∃ results, acceptActiveBatch 1 (requests.map Prod.fst) (packTrees requests padTokenId)
        nodeArgmax none hiddenSources = .ok results ∧
      results.length = requests.length ∧
      ∀ row request (accepted : Accepted H), requests[row]? = some request →
        results[row]? = some accepted →
        ∃ path, accepted.OnTree request.1 path ∧
          accepted.Greedy request.1 (fun node => (nodeArgmax.getD row []).getD node 0) path := by
  have staged : (packTrees requests padTokenId).inputIds.length = requests.length := by
    simp [packTrees]
  have shaped : ¬ (hiddenSources.length ≠ 3 ∨ hiddenSources.any (fun source =>
      source.map List.length !=
        List.replicate requests.length (packTrees requests padTokenId).treeWidth) = true) := by
    simpa [sources] using shapes
  simp only [acceptActiveBatch, staged, decisions, ne_eq, not_true_eq_false, if_false, if_neg shaped]
  rw [if_neg (by simp)]
  obtain ⟨results, decided, lengths, related⟩ := Rows.mapM_zipIdx (requests.map Prod.fst)
    (fun entry => acceptRow 1 (packTrees requests padTokenId).treeWidth
      (maximum ((requests.map Prod.fst).map (fun tree => tree.retrieve.rows.length)))
      (maximum ((requests.map Prod.fst).map (fun tree => tree.retrieve.width))) entry.1
      ((packTrees requests padTokenId).inputIds.getD entry.2 []) (nodeArgmax.getD entry.2 [])
      (((none : Option (List (List (List Nat)))).getD []).getD entry.2 [])
      (hiddenSources.map (fun source => source.getD entry.2 [])))
    (fun row tree (accepted : Accepted H) => ∃ path, accepted.OnTree tree path ∧
      accepted.Greedy tree (fun node => (nodeArgmax.getD row []).getD node 0) path)
    (by
      intro row tree atTree
      rw [List.getElem?_map] at atTree
      obtain ⟨request, atRequest, rfl⟩ := Option.map_eq_some_iff.mp atTree
      have member := List.mem_of_getElem? atRequest
      obtain ⟨current, wellFormedTree⟩ := wellFormed request member
      obtain ⟨accepted, path, result, onTree, greedy⟩ := acceptRow_spec 1
        (packTrees requests padTokenId).treeWidth _ _ request.1 current _ (nodeArgmax.getD row [])
        _ _ wellFormedTree (packed_length requests padTokenId row request atRequest)
        (width_le_treeWidth requests padTokenId request member)
        (fun node inside => packed_token requests padTokenId row node request atRequest inside)
      exact ⟨accepted, result, path, onTree, greedy rfl⟩)
  refine ⟨results, decided, by simpa using lengths, ?_⟩
  intro row request accepted atRequest atResult
  exact related row request.1 accepted (by simp [atRequest]) atResult

/-- A batch of well-formed trees is verified without error. Every decision is a
root path of its own request's tree that spells the target's choices. -/
theorem verifyGreedy_spec (vocabSize padTokenId : Nat) (requests : List (Tree × Nat))
    (forward : Forward H) (vocabulary : 0 < vocabSize)
    (wellFormed : ∀ request ∈ requests, ∃ current, request.1.WellFormed current) :
    ∃ results, verifyGreedy 1 vocabSize padTokenId requests forward = .ok results ∧
      results.length = requests.length ∧
      ∀ row request (accepted : Accepted H), requests[row]? = some request →
        results[row]? = some accepted →
        ∃ path, accepted.OnTree request.1 path ∧
          accepted.Greedy request.1 (forward.argmax row) path := by
  have widths : (packTrees requests padTokenId).widths = requests.map (fun request =>
      request.1.width) := rfl
  have fitting : ¬ (packTrees requests padTokenId).widths.any (fun width =>
      width = 0 ∨ (packTrees requests padTokenId).treeWidth < width) = true := by
    simp only [widths, List.any_map, List.any_eq_true, not_exists, not_and, Function.comp_apply,
      decide_eq_true_eq, not_or, Nat.not_lt]
    intro request member
    obtain ⟨current, wellFormedTree⟩ := wellFormed request member
    exact ⟨Nat.ne_of_gt wellFormedTree.width_pos,
      width_le_treeWidth requests padTokenId request member⟩
  have projected := stage_lengths (packTrees requests padTokenId).widths
    (packTrees requests padTokenId).treeWidth 0 forward.argmax
  rw [show (packTrees requests padTokenId).widths.length = requests.length by
    rw [widths, List.length_map]] at projected
  obtain ⟨results, decided, lengths, related⟩ := acceptActiveBatch_spec requests padTokenId
    _ ((List.range 3).map (fun source => (List.range requests.length).map (fun row =>
      (List.range (packTrees requests padTokenId).treeWidth).map (forward.hidden source row))))
    wellFormed projected (by simp) (by simp [Function.comp_def])
  refine ⟨results, ?_, lengths, ?_⟩
  · simp only [verifyGreedy, projectTreeDecisions, if_neg fitting]
    rw [if_neg (by omega)]
    exact decided
  · intro row request accepted atRequest atResult
    obtain ⟨path, onTree, chosen, next⟩ := related row request accepted atRequest atResult
    have listed : (packTrees requests padTokenId).widths[row]? = some request.1.width := by
      simp [widths, atRequest]
    have real : ∀ node ∈ path, ((stage (packTrees requests padTokenId).widths
        (packTrees requests padTokenId).treeWidth 0 forward.argmax).getD row []).getD node 0 =
          forward.argmax row node := fun node onPath =>
      stage_real _ _ forward.argmax row _ node listed (onTree.inside node onPath)
        (width_le_treeWidth requests padTokenId request (List.mem_of_getElem? atRequest))
    refine ⟨path, onTree, ?_, ?_⟩
    · intro position parent child atParent atChild
      rw [chosen position parent child atParent atChild]
      exact real parent (List.mem_of_getElem? atParent)
    · intro node last
      rw [next node last]
      exact real node (List.mem_of_getLast? last)

/-- Whatever the target returns, a batch that is accepted is accepted along root
paths of its own trees. -/
theorem acceptActiveBatch_onTree (acceptTopk padTokenId : Nat) (requests : List (Tree × Nat))
    (nodeArgmax : List (List Nat)) (nodeTopk : Option (List (List (List Nat))))
    (hiddenSources : List (List (List H))) (results : List (Accepted H))
    (wellFormed : ∀ request ∈ requests, ∃ current, request.1.WellFormed current)
    (success : acceptActiveBatch acceptTopk (requests.map Prod.fst) (packTrees requests padTokenId)
      nodeArgmax nodeTopk hiddenSources = .ok results) :
    results.length = requests.length ∧
      ∀ (row : Nat) (request : Tree × Nat) (accepted : Accepted H), requests[row]? = some request →
        results[row]? = some accepted → ∃ path, accepted.OnTree request.1 path := by
  simp only [acceptActiveBatch] at success
  split at success
  · cases success
  split at success
  · cases success
  split at success
  · cases success
  have decided := Rows.mapM_decided _ _ results success
  refine ⟨by simpa using decided.length_eq.symm, ?_⟩
  intro row request accepted listed read
  obtain ⟨inside, rfl⟩ := List.getElem?_eq_some_iff.mp read
  obtain ⟨bound, rfl⟩ := List.getElem?_eq_some_iff.mp listed
  have own := decided.get (by simpa using bound) inside
  simp only [List.get_eq_getElem, List.getElem_zipIdx, List.getElem_map, Nat.zero_add] at own
  have member := List.getElem_mem bound
  obtain ⟨current, wellFormedTree⟩ := wellFormed _ member
  obtain ⟨result, path, accepts, onTree, -⟩ := acceptRow_spec acceptTopk
    (packTrees requests padTokenId).treeWidth _ _ requests[row].1 current _ _ _ _ wellFormedTree
    (packed_length requests padTokenId row _ (List.getElem?_eq_getElem bound))
    (width_le_treeWidth requests padTokenId _ member)
    (fun node real => packed_token requests padTokenId row node _ (List.getElem?_eq_getElem bound)
      real)
  rw [accepts] at own
  exact ⟨path, Except.ok.inj own ▸ onTree⟩

/-- A verified batch is accepted along root paths of its own trees. -/
theorem verifyGreedy_onTree (acceptTopk vocabSize padTokenId : Nat) (requests : List (Tree × Nat))
    (forward : Forward H) (results : List (Accepted H))
    (wellFormed : ∀ request ∈ requests, ∃ current, request.1.WellFormed current)
    (success : verifyGreedy acceptTopk vocabSize padTokenId requests forward = .ok results) :
    results.length = requests.length ∧
      ∀ (row : Nat) (request : Tree × Nat) (accepted : Accepted H), requests[row]? = some request →
        results[row]? = some accepted → ∃ path, accepted.OnTree request.1 path := by
  simp only [verifyGreedy] at success
  cases projected : projectTreeDecisions acceptTopk vocabSize (packTrees requests padTokenId).widths
      (packTrees requests padTokenId).treeWidth forward.argmax forward.topk with
  | error reason => simp [projected, bind, Except.bind] at success
  | ok decisions =>
    simp only [projected, bind, Except.bind] at success
    exact acceptActiveBatch_onTree acceptTopk padTokenId requests _ _ _ results wellFormed success

end SpecBlock.Batch
