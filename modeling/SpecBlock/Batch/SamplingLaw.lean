import SpecBlock.Batch.SamplingRow
import SpecBlock.Batch.Verification

/-!
# Law of a sampled batch

`_accept_sampling_batch` reads the target's probabilities at compact positions,
lets every row advance in the same levels, and collects the rows at the end.
None of this couples the rows: reading back the compact positions gives each row
its own probabilities, and the draws of the other rows have total weight one.
A row's result therefore has the law of its own walk, ancestral sampling from
the target.
-/

namespace SpecBlock.Batch

open Rejection

variable {H : Type}

/-- Reading a compact list at the position of a kept row gives that row's entry. -/
theorem compact_getD {σ : Type} (rows : List Nat) (read : Nat → σ) (filler : σ) (row : Nat)
    (member : row ∈ rows) : (rows.map read).getD (rows.idxOf row) filler = read row := by
  have inside : rows.idxOf row < rows.length := List.idxOf_lt_length_iff.mpr member
  rw [List.getD_eq_getElem?_getD, List.getElem?_map, List.getElem?_eq_getElem inside,
    List.getElem_idxOf]
  rfl

section batch

variable (vocabSize maxPaths : Nat) (probabilities : Nat → Nat → Nat → ℚ) (rows : List StagedRow)

/-- A level of the batch is every row's own part of the level. -/
theorem levelStep_eq (depth : Nat) (states : List SampleState) :
    levelStep vocabSize maxPaths probabilities rows depth states =
      Law.each (states.mapIdx (fun row state =>
        rowStep vocabSize maxPaths (probabilities row) (rows.getD row default) depth state)) := by
  simp only [levelStep]
  apply congrArg Law.each
  apply List.ext_getElem (by simp)
  intro row inside _
  rw [List.getElem_mapIdx, List.getElem_mapIdx, rowStep]
  rw [List.length_mapIdx] at inside
  split
  · next takesPart =>
    have own : states.getD row default = states[row] := by
      simp [List.getD_eq_getElem?_getD, inside]
    rw [compact_getD _ _ _ row, own]
    rw [List.mem_filter, own]
    exact ⟨List.mem_range.mpr inside, takesPart⟩
  · rfl

/-- The levels are phases in which each row draws for itself. -/
theorem levels_eq (depths : List Nat) (states : List SampleState) :
    levels vocabSize maxPaths probabilities rows depths states =
      Law.parallel (fun depth row => rowStep vocabSize maxPaths (probabilities row)
        (rows.getD row default) depth) depths states := by
  induction depths generalizing states with
  | nil => rfl
  | cons depth depths ih =>
    rw [levels, Law.parallel, levelStep_eq]
    exact congrArg _ (funext ih)

end batch

/-- A row's state lies on a path of its own tree. -/
def SampleState.OnTree (state : SampleState) (tree : Tree) : Prop :=
  ∃ tokens, tree.Walking state.bestCandidate tokens ∧ tokens.length = state.acceptedWidth

/-- A level keeps a row on its tree: it moves along a proposal or stops. -/
theorem rowStep_onTree (vocabSize maxPaths depth current : Nat) (probabilities : Nat → Nat → ℚ)
    (staged : StagedRow) (tree : Tree) (state final : SampleState) (reads : staged.Reads tree)
    (wellFormed : tree.WellFormed current) (onTree : state.OnTree tree)
    (member : final ∈ (rowStep vocabSize maxPaths probabilities staged depth state).outcomes) :
    final.OnTree tree := by
  obtain ⟨tokens, walking, length⟩ := onTree
  unfold rowStep at member
  split at member
  · next takesPart =>
    have level : tokens.length = depth := by
      simp only [eligible, Bool.and_eq_true, decide_eq_true_eq] at takesPart
      exact length.trans takesPart.1.2
    subst level
    obtain ⟨offers, drawn, settled⟩ := (Law.mem_outcomes_bind _ _ _).mp member
    split at settled
    · next taken =>
      obtain ⟨-, proposed⟩ := offerPaths_taken _ _ _ _ offers rfl drawn taken
      obtain ⟨token, -, walks⟩ := proposal_walks reads walking wellFormed _ proposed
      rw [Law.mem_outcomes_pure] at settled
      subst settled
      exact ⟨tokens ++ [token], walks, by simp [length]⟩
    · obtain ⟨token, -, last⟩ := (Law.mem_outcomes_bind _ _ _).mp settled
      rw [Law.mem_outcomes_pure] at last
      subst last
      exact ⟨tokens, walking, length⟩
  · rw [Law.mem_outcomes_pure] at member
    subst member
    exact ⟨tokens, walking, length⟩

theorem finishRow_onTree (vocabSize : Nat) (probabilities : Nat → Nat → ℚ) (staged : StagedRow)
    (tree : Tree) (state final : SampleState) (onTree : state.OnTree tree)
    (member : final ∈ (finishRow vocabSize probabilities staged state).outcomes) :
    final.OnTree tree := by
  unfold finishRow at member
  split at member
  · rw [Law.mem_outcomes_pure] at member
    exact member ▸ onTree
  · obtain ⟨token, -, last⟩ := (Law.mem_outcomes_bind _ _ _).mp member
    rw [Law.mem_outcomes_pure] at last
    exact last ▸ onTree

/-- Collecting a real path reads the staged tokens after its root. -/
theorem collectRow_real (staged : StagedRow) (inputIds : List Nat)
    (hiddenSources : List (List H)) (state : SampleState) (path : List Nat) (padding : Nat)
    (nodes : staged.retrieve.getD state.bestCandidate [] =
      path.map Int.ofNat ++ List.replicate padding (-1))
    (positive : 0 < state.acceptedWidth) (onPath : state.acceptedWidth ≤ path.length) :
    collectRow staged inputIds hiddenSources state = .ok {
      acceptLength := state.acceptedWidth - 1
      acceptedTokenIds :=
        (path.tail.take (state.acceptedWidth - 1)).map (fun node => inputIds.getD node 0)
      nextToken := state.nextToken.getD 0
      hidden := (path.take state.acceptedWidth).map
        (fun node => hiddenSources.filterMap (fun source => source[node]?))
      bestCandidate := state.bestCandidate
      selectedPathIndices := (path.take state.acceptedWidth).map Int.ofNat } := by
  have whole : state.acceptedWidth - 1 + 1 = state.acceptedWidth := Nat.sub_add_cancel positive
  have taken : (path.map Int.ofNat ++ List.replicate padding (-1)).take state.acceptedWidth =
      (path.take state.acceptedWidth).map Int.ofNat := by
    rw [List.take_append_of_le_length (by rwa [List.length_map]), List.map_take]
  have genuine : ¬ ((path.take state.acceptedWidth).map Int.ofNat).any (fun index => index < 0) =
      true := by
    rw [List.any_map, List.any_eq_true]
    rintro ⟨node, -, negative⟩
    simp only [Function.comp_apply, Int.ofNat_eq_natCast, decide_eq_true_eq] at negative
    omega
  have after : (path.map Int.ofNat ++ List.replicate padding (-1)).tail =
      path.tail.map Int.ofNat ++ List.replicate padding (-1) := by
    cases path with
    | nil => exact absurd onPath (by simpa using positive.ne')
    | cons node rest => rfl
  have drafted : state.acceptedWidth - 1 ≤ path.tail.length := by
    rw [List.length_tail]
    omega
  have tokens : ((path.tail.map Int.ofNat ++ List.replicate padding (-1)).map
      (fun (index : Int) => inputIds.getD index.toNat 0)).take (state.acceptedWidth - 1) =
      (path.tail.take (state.acceptedWidth - 1)).map (fun node => inputIds.getD node 0) := by
    rw [List.map_append, List.take_append_of_le_length (by simpa using drafted), ← List.map_take,
      ← List.map_take, List.map_map]
    exact List.map_congr_left (fun node _ => rfl)
  have hidden : ((path.map Int.ofNat ++ List.replicate padding (-1)).map (fun (index : Int) =>
      hiddenSources.filterMap (fun source => source[index.toNat]?))).take state.acceptedWidth =
      (path.take state.acceptedWidth).map
        (fun node => hiddenSources.filterMap (fun source => source[node]?)) := by
    rw [← List.map_take, taken, List.map_map]
    exact List.map_congr_left (fun node _ => rfl)
  simp only [collectRow, nodes, whole, taken, if_neg genuine, after, tokens, hidden]

/-- A row on its tree is collected without error, as a root path of the tree. -/
theorem collectRow_spec (staged : StagedRow) (inputIds : List Nat)
    (hiddenSources : List (List H)) (tree : Tree) (current : Nat) (state : SampleState)
    (reads : staged.Reads tree) (wellFormed : tree.WellFormed current)
    (tokens : ∀ node < tree.width, inputIds.getD node 0 = tree.tokens.getD node 0)
    (onTree : state.OnTree tree) :
    ∃ accepted, collectRow staged inputIds hiddenSources state = .ok accepted ∧
      accepted.OnTree tree ((tree.path state.bestCandidate).take state.acceptedWidth) ∧
      current :: accepted.proposed = tree.emission state := by
  obtain ⟨taken, walking, width⟩ := onTree
  obtain ⟨-, root, bounded⟩ := wellFormed.row_path _ walking.inside
  obtain ⟨padding, nodes⟩ := reads.retrieve _ walking.inside
  have positive : 0 < state.acceptedWidth := width ▸ List.length_pos_iff.mpr walking.started
  have onPath : state.acceptedWidth ≤ (tree.path state.bestCandidate).length := by
    have bound := walking.spelled.length_le
    rw [Tree.spelling_length, width] at bound
    exact bound
  have collected := collectRow_real staged inputIds hiddenSources state _ padding nodes positive onPath
  refine ⟨_, collected, (and_iff_left_of_imp fun onRow => ?_).mpr ?_⟩
  · have spelled := onRow.spelled wellFormed
    rw [Tree.tokensAt, List.map_take, ← Tree.tokensAt, ← Tree.spelling] at spelled
    rw [Accepted.proposed, Tree.emission, spelled]
    rfl
  · refine ⟨rfl, ?_, ?_, ?_, ?_, ?_⟩
    · rw [List.length_take]
      dsimp only
      omega
    · rw [List.head?_take, if_neg (by omega)]
      exact root
    · exact fun node member => bounded node (List.mem_of_mem_take member)
    · rw [Tree.tokensAt, List.tail_take_eq_take_tail]
      exact List.map_congr_left (fun node member => tokens node
        (bounded node (List.mem_of_mem_tail (List.mem_of_mem_take member))))
    · intro position node read
      rw [List.getElem?_take] at read
      split at read
      · next before =>
        rw [wellFormed.rootPath_path _ position node read, List.take_take,
          Nat.min_eq_left (by omega)]
      · simp at read

/-- The tokens a batch result emits for one request. -/
def emitted (row : Nat) : Except String (List (Accepted H)) → Option (List Nat)
  | .ok results => results[row]?.map Accepted.proposed
  | .error _ => none

section sampled

variable (vocabSize padTokenId : Nat) (requests : List (Tree × Nat))
  (probabilities : Nat → Nat → Nat → ℚ) (hiddenSources : List (List (List H)))

/-- The tensors staged for the requests of a batch. -/
def stagedRows : List StagedRow :=
  (requests.map Prod.fst).mapIdx (fun row tree =>
    stageRow (packTrees requests padTokenId).treeWidth
      (maximum ((requests.map Prod.fst).map (fun tree => tree.retrieve.rows.length)))
      (maximum ((requests.map Prod.fst).map (fun tree => tree.retrieve.width))) tree
      ((packTrees requests padTokenId).inputIds.getD row []))

/-- States after the levels and the last draws. -/
def sampledStates : Law (List SampleState) := do
  let states ← levels vocabSize
    (maximum ((requests.map Prod.fst).map (fun tree => tree.retrieve.rows.length))) probabilities
    (stagedRows padTokenId requests)
    (List.range' 1 (maximum ((requests.map Prod.fst).map (fun tree => tree.retrieve.width)) - 1))
    ((stagedRows padTokenId requests).map (fun _ => ⟨1, 0, none⟩))
  Law.each (states.mapIdx (fun row state => finishRow vocabSize (probabilities row)
    ((stagedRows padTokenId requests).getD row default) state))

/-- Collecting every row of the batch. -/
def collectStates (states : List SampleState) : Except String (List (Accepted H)) :=
  states.zipIdx.mapM (fun entry =>
    collectRow ((stagedRows padTokenId requests).getD entry.2 default)
      ((packTrees requests padTokenId).inputIds.getD entry.2 [])
      (hiddenSources.map (fun source => source.getD entry.2 [])) entry.1)

/-- With staged shapes the batch samples its states and collects them. -/
theorem acceptSamplingBatch_eq (sources : hiddenSources.length = 3)
    (shapes : ∀ source ∈ hiddenSources, source.map List.length =
      List.replicate requests.length (packTrees requests padTokenId).treeWidth) :
    acceptSamplingBatch vocabSize (requests.map Prod.fst) (packTrees requests padTokenId)
        probabilities hiddenSources =
      (sampledStates vocabSize padTokenId requests probabilities >>= fun states =>
        pure (collectStates padTokenId requests hiddenSources states)) := by
  have staged : (packTrees requests padTokenId).inputIds.length = requests.length := by
    simp [packTrees]
  have shaped : ¬ (hiddenSources.length ≠ 3 ∨ hiddenSources.any (fun source =>
      source.map List.length !=
        List.replicate requests.length (packTrees requests padTokenId).treeWidth) = true) := by
    simpa [sources] using shapes
  simp only [acceptSamplingBatch, staged, List.length_map, ne_eq, not_true_eq_false, if_false,
    if_neg shaped, sampledStates, Law.bind_assoc]
  rfl

/-- The staged tensors of a row hold the tree of the request in that row. -/
theorem stagedRows_reads (row : Nat) (request : Tree × Nat) (current : Nat)
    (listed : requests[row]? = some request) (own : request.1.WellFormed current) :
    ((stagedRows padTokenId requests).getD row default).Reads request.1 := by
  have staged : (stagedRows padTokenId requests).getD row default =
      stageRow (packTrees requests padTokenId).treeWidth
        (maximum ((requests.map Prod.fst).map (fun tree => tree.retrieve.rows.length)))
        (maximum ((requests.map Prod.fst).map (fun tree => tree.retrieve.width))) request.1
        ((packTrees requests padTokenId).inputIds.getD row []) := by
    simp [stagedRows, List.getD_eq_getElem?_getD, listed]
  rw [staged]
  exact stageRow_reads _ _ _ current request.1 _ own
    (packed_length requests padTokenId row request listed)
    (width_le_treeWidth requests padTokenId request (List.mem_of_getElem? listed))
    (fun node inside => packed_token requests padTokenId row node request listed inside)

/-- The states of a row have the law of the row's own walk: the other rows only
contribute draws of total weight one. -/
theorem sampledStates_marginal
    (distribution : ∀ row node, Distribution vocabSize (probabilities row node))
    (row : Nat) (request : Tree × Nat) (listed : requests[row]? = some request)
    (value : Option SampleState → ℚ) :
    (sampledStates vocabSize padTokenId requests probabilities).expect
        (fun states => value states[row]?) =
      (Law.sequential (rowStep vocabSize
          (maximum ((requests.map Prod.fst).map (fun tree => tree.retrieve.rows.length)))
          (probabilities row) ((stagedRows padTokenId requests).getD row default))
        (List.range' 1 (maximum ((requests.map Prod.fst).map (fun tree => tree.retrieve.width)) - 1))
        ⟨1, 0, none⟩).expect
        (fun state => (finishRow vocabSize (probabilities row)
          ((stagedRows padTokenId requests).getD row default) state).expect
          (fun final => value (some final))) := by
  have finishTotal : ∀ (states : List SampleState), ∀ law ∈ states.mapIdx (fun row state =>
      finishRow vocabSize (probabilities row) ((stagedRows padTokenId requests).getD row default)
        state), law.Total := by
    intro states law member
    obtain ⟨other, _, rfl⟩ := List.mem_mapIdx.mp member
    exact finishRow_total vocabSize (probabilities other) _ _ (distribution other)
  have start : ((stagedRows padTokenId requests).map
      (fun _ => (⟨1, 0, none⟩ : SampleState)))[row]? = some ⟨1, 0, none⟩ := by
    rw [List.getElem?_map, stagedRows, List.getElem?_mapIdx, List.getElem?_map, listed]
    rfl
  have own : ∀ states : List SampleState, (Law.each (states.mapIdx (fun row state =>
      finishRow vocabSize (probabilities row) ((stagedRows padTokenId requests).getD row default)
        state))).expect (fun finals => value finals[row]?) =
      states[row]?.elim (value none) (fun state => (finishRow vocabSize (probabilities row)
        ((stagedRows padTokenId requests).getD row default) state).expect
          (fun final => value (some final))) := by
    intro states
    rw [Law.each_marginal _ (finishTotal states) row value, List.getElem?_mapIdx]
    cases states[row]? <;> rfl
  rw [sampledStates, Law.expect_bind, levels_eq]
  simp only [own]
  rw [Law.parallel_marginal _ (fun depth row state => rowStep_total vocabSize _ depth
    (probabilities row) _ state (distribution row)) _ _ row (fun entry => entry.elim (value none)
      (fun state => (finishRow vocabSize (probabilities row)
        ((stagedRows padTokenId requests).getD row default) state).expect
          (fun final => value (some final)))), start]
  rfl

/-- The state of a row is on the tree of the request in that row. -/
def RowOnTree (row : Nat) (state : SampleState) : Prop :=
  ∀ request, requests[row]? = some request → state.OnTree request.1

/-- States of a batch whose rows are all on their own trees. -/
def StatesOnTree (states : List SampleState) : Prop :=
  states.length = requests.length ∧
    ∀ row state, states[row]? = some state → RowOnTree requests row state

variable (wellFormed : ∀ request ∈ requests, ∃ current, request.1.WellFormed current)
include wellFormed

theorem start_onTree (row : Nat) : RowOnTree requests row ⟨1, 0, none⟩ := by
  intro request listed
  obtain ⟨current, own⟩ := wellFormed request (List.mem_of_getElem? listed)
  have someRow : 0 < request.1.retrieve.rows.length := List.length_pos_iff.mpr own.nonempty
  refine ⟨[current], ⟨someRow, by simp, ?_⟩, rfl⟩
  rw [own.spelling_root 0 someRow]
  exact ⟨_, rfl⟩

theorem sampledStates_onTree (states : List SampleState)
    (member : states ∈ (sampledStates vocabSize padTokenId requests probabilities).outcomes) :
    StatesOnTree requests states := by
  obtain ⟨walked, levelled, finished⟩ := (Law.mem_outcomes_bind _ _ _).mp member
  rw [levels_eq] at levelled
  obtain ⟨lengths, onTree⟩ := Law.mem_outcomes_parallel _ (RowOnTree requests)
    (by
      intro depth row state holds final drawn request listed
      obtain ⟨current, own⟩ := wellFormed request (List.mem_of_getElem? listed)
      exact rowStep_onTree vocabSize _ depth current (probabilities row) _ request.1 state final
        (stagedRows_reads padTokenId requests row request current listed own) own
        (holds request listed) drawn)
    _ _ walked
    (by
      intro row state read
      have initial : state = ⟨1, 0, none⟩ :=
        (List.mem_map.mp (List.mem_of_getElem? read)).elim fun _ same => same.2.symm
      exact initial ▸ start_onTree requests wellFormed row)
    levelled
  obtain ⟨finalLengths, final⟩ := Law.mem_outcomes_rows _ (RowOnTree requests)
    (RowOnTree requests)
    (by
      intro row state holds final drawn request listed
      exact finishRow_onTree vocabSize (probabilities row) _ request.1 state final
        (holds request listed) drawn)
    walked states onTree finished
  refine ⟨?_, final⟩
  rw [finalLengths, lengths]
  simp [stagedRows]

/-- A collected row is a root path of its own tree with the tokens of its state. -/
def Collected (row : Nat) (state : SampleState) (accepted : Accepted H) : Prop :=
  ∀ request, requests[row]? = some request →
    (∃ path, accepted.OnTree request.1 path) ∧
      accepted.proposed = (request.1.emission state).tail

theorem collectStates_spec (states : List SampleState) (onTree : StatesOnTree requests states) :
    ∃ results, collectStates padTokenId requests hiddenSources states = .ok results ∧
      results.length = states.length ∧
      ∀ row state (accepted : Accepted H), states[row]? = some state →
        results[row]? = some accepted → Collected requests row state accepted := by
  obtain ⟨lengths, rows⟩ := onTree
  refine Rows.mapM_zipIdx states _ (Collected requests) ?_
  intro row state read
  have inside : row < requests.length := lengths ▸ (List.getElem?_eq_some_iff.mp read).1
  have listed := List.getElem?_eq_getElem inside
  obtain ⟨current, own⟩ := wellFormed _ (List.mem_of_getElem? listed)
  obtain ⟨accepted, result, path, spelled⟩ := collectRow_spec _
    ((packTrees requests padTokenId).inputIds.getD row [])
    (hiddenSources.map (fun source => source.getD row [])) _ current state
    (stagedRows_reads padTokenId requests row _ current listed own) own
    (fun node inside => packed_token requests padTokenId row node _ listed inside)
    (rows row state read _ listed)
  refine ⟨accepted, result, fun request again => ?_⟩
  obtain rfl := Option.some.inj (listed.symm.trans again)
  exact ⟨⟨_, path⟩, by rw [← spelled, List.tail_cons]⟩

/-- Every sampled result is well formed: each row's decision is a root path of
its own tree, whatever was drawn. -/
theorem acceptSamplingBatch_onTree (sources : hiddenSources.length = 3)
    (shapes : ∀ source ∈ hiddenSources, source.map List.length =
      List.replicate requests.length (packTrees requests padTokenId).treeWidth)
    (result : Except String (List (Accepted H)))
    (member : result ∈ (acceptSamplingBatch vocabSize (requests.map Prod.fst)
      (packTrees requests padTokenId) probabilities hiddenSources).outcomes) :
    ∃ results : List (Accepted H), result = .ok results ∧ results.length = requests.length ∧
      ∀ (row : Nat) (request : Tree × Nat) (accepted : Accepted H), requests[row]? = some request →
        results[row]? = some accepted → ∃ path, accepted.OnTree request.1 path := by
  rw [acceptSamplingBatch_eq vocabSize padTokenId requests probabilities hiddenSources sources shapes]
    at member
  obtain ⟨states, drawn, last⟩ := (Law.mem_outcomes_bind _ _ _).mp member
  rw [Law.mem_outcomes_pure] at last
  have onTree := sampledStates_onTree vocabSize padTokenId requests probabilities wellFormed states
    drawn
  obtain ⟨results, collected, lengths, related⟩ :=
    collectStates_spec padTokenId requests hiddenSources wellFormed states onTree
  refine ⟨results, last.trans collected, lengths.trans onTree.1, ?_⟩
  intro row request accepted listed read
  have inside : row < states.length := lengths ▸ (List.getElem?_eq_some_iff.mp read).1
  exact (related row states[row] accepted (List.getElem?_eq_getElem inside) read request listed).1

/-- The tokens emitted for a row are those of its final state. -/
theorem emitted_collect (states : List SampleState) (onTree : StatesOnTree requests states)
    (row : Nat) (request : Tree × Nat) (listed : requests[row]? = some request) :
    emitted row (collectStates padTokenId requests hiddenSources states) =
      states[row]?.map (fun state => (request.1.emission state).tail) := by
  obtain ⟨results, collected, lengths, related⟩ :=
    collectStates_spec padTokenId requests hiddenSources wellFormed states onTree
  have inside : row < states.length := onTree.1 ▸ (List.getElem?_eq_some_iff.mp listed).1
  have inResults : row < results.length := lengths ▸ inside
  rw [collected, emitted, List.getElem?_eq_getElem inside, List.getElem?_eq_getElem inResults]
  exact congrArg some (related row _ _ (List.getElem?_eq_getElem inside)
    (List.getElem?_eq_getElem inResults) request listed).2

end sampled

/-- Every projected row of probabilities is a distribution, and at a real node it
is the target's after the node's root path. -/
structure Projects (vocabSize : Nat) (requests : List (Tree × Nat)) (contexts : Nat → List Nat)
    (target : List Nat → Nat → ℚ) (probabilities : Nat → Nat → Nat → ℚ) : Prop where
  distribution : ∀ row node, Distribution vocabSize (probabilities row node)
  faithful : ∀ row request node path, requests[row]? = some request →
    request.1.rootPath node = some path →
    probabilities row node = target (contexts row ++ request.1.tokensAt path)

/-- **Speculative sampling emits the target's own tokens.** For every batch of
well-formed trees, the tokens emitted for a request have the law of ancestral
sampling from the target, continued for as long as the request's tree drafts the
tokens drawn. The proposals of a drafted prefix must be tested while the guard of
the divisor is out of play. -/
theorem acceptSamplingBatch_law (vocabSize padTokenId : Nat) (requests : List (Tree × Nat))
    (contexts : Nat → List Nat) (target : List Nat → Nat → ℚ)
    (probabilities : Nat → Nat → Nat → ℚ) (hiddenSources : List (List (List H)))
    (wellFormed : ∀ request ∈ requests, ∃ current, request.1.WellFormed current)
    (projects : Projects vocabSize requests contexts target probabilities)
    (sources : hiddenSources.length = 3)
    (shapes : ∀ source ∈ hiddenSources, source.map List.length =
      List.replicate requests.length (packTrees requests padTokenId).treeWidth)
    (row : Nat) (request : Tree × Nat) (listed : requests[row]? = some request) (current : Nat)
    (rooted : request.1.WellFormed current)
    (resolved : ∀ tokens, tokens ≠ [] → request.1.drafts tokens = true →
      Resolved (target (contexts row ++ tokens)) float32Tiny 1
        (request.1.childTokens vocabSize tokens)) :
    (acceptSamplingBatch vocabSize (requests.map Prod.fst) (packTrees requests padTokenId)
        probabilities hiddenSources >>= fun result => pure (emitted row result)).Same
      (Law.ancestral vocabSize (fun tokens => target (contexts row ++ tokens)) request.1.drafts
        (request.1.retrieve.width - 1) [current] >>= fun tokens => pure (some tokens.tail)) := by
  intro value
  have someRow : 0 < request.1.retrieve.rows.length := List.length_pos_iff.mpr rooted.nonempty
  have walking : request.1.Walking 0 [current] := by
    refine ⟨someRow, by simp, ?_⟩
    rw [rooted.spelling_root 0 someRow]
    exact ⟨_, rfl⟩
  have inBatch : request.1 ∈ requests.map Prod.fst :=
    List.mem_map_of_mem (List.mem_of_getElem? listed)
  have covered := le_maximum _ _ (List.mem_map_of_mem
    (f := fun tree : Tree => tree.retrieve.rows.length) inBatch)
  have widest := le_maximum _ _ (List.mem_map_of_mem
    (f := fun tree : Tree => tree.retrieve.width) inBatch)
  have walk := walk_law (stagedRows_reads padTokenId requests row request current listed rooted)
    rooted covered (projects.distribution row)
    (fun node nodes found => projects.faithful row request node nodes listed found)
    resolved (fun tokens => value (some tokens.tail))
    (maximum ((requests.map Prod.fst).map (fun tree => tree.retrieve.width)) - 1) 0 [current]
    walking (by rw [List.length_singleton]; omega)
  calc (acceptSamplingBatch vocabSize (requests.map Prod.fst) (packTrees requests padTokenId)
        probabilities hiddenSources >>= fun result => pure (emitted row result)).expect value
      = (sampledStates vocabSize padTokenId requests probabilities).expect (fun states =>
          value (emitted row (collectStates padTokenId requests hiddenSources states))) := by
        rw [acceptSamplingBatch_eq vocabSize padTokenId requests probabilities hiddenSources sources
          shapes, Law.expect_map, Law.expect_map]
    _ = (sampledStates vocabSize padTokenId requests probabilities).expect (fun states =>
          value (states[row]?.map (fun state => (request.1.emission state).tail))) := by
        refine Law.expect_congr _ _ _ (fun states drawn => ?_)
        rw [emitted_collect padTokenId requests hiddenSources wellFormed states
          (sampledStates_onTree vocabSize padTokenId requests probabilities wellFormed states drawn)
          row request listed]
    _ = _ := sampledStates_marginal vocabSize padTokenId requests probabilities
        projects.distribution row request listed (fun entry =>
          value (entry.map (fun state => (request.1.emission state).tail)))
    _ = _ := by
        rw [Law.expect_map]
        exact walk

/-- A target over two tokens that ignores the text. -/
def coin (share : ℚ) (token : Nat) : ℚ :=
  if token = 0 then 1 - share else if token = 1 then share else 0

theorem coin_distribution (share : ℚ) (nonnegative : 0 ≤ share) (bounded : share ≤ 1) :
    Distribution 2 (coin share) := by
  refine ⟨fun token => ?_, by simp [Finset.sum_range_succ, coin]⟩
  unfold coin
  split
  · linarith
  · split <;> linarith

/-- Two siblings after the current token, both of the vocabulary. -/
def fork : Tree where
  tokens := [0, 0, 1]
  mask := [[true, false, false], [true, true, false], [true, false, true]]
  depths := [0, 1, 1]
  retrieve := ⟨[[0, 1], [0, 2]], 2, by decide⟩

/-- A ragged tree that drafts the same sibling twice. -/
def twins : Tree where
  tokens := [1, 0, 0, 1]
  mask := [[true, false, false, false], [true, true, false, false], [true, false, true, false],
    [true, true, false, true]]
  depths := [0, 1, 1, 2]
  retrieve := ⟨[[0, 1, 3], [0, 2, -1]], 3, by decide⟩

/-- The fork batched with a wider ragged tree, under a target that prefers token one. -/
theorem acceptSamplingBatch_law_fork :
    (acceptSamplingBatch 2 [fork, twins] (packTrees [(fork, 3), (twins, 5)] 0)
        (fun _ _ => coin (3 / 4)) (List.replicate 3 (List.replicate 2 (List.replicate 4 ()))) >>=
      fun result => pure (emitted 0 result)).Same
      (Law.ancestral 2 (fun _ => coin (3 / 4)) fork.drafts 1 [0] >>= fun tokens =>
        pure (some tokens.tail)) := by
  have fair := coin_distribution (3 / 4) (by norm_num) (by norm_num)
  have normal : ∀ token, 0 < coin (3 / 4) token → float32Tiny ≤ coin (3 / 4) token := by
    intro token positive
    unfold coin at positive ⊢
    split
    · norm_num [float32Tiny]
    · split
      · norm_num [float32Tiny]
      · simp_all
  exact acceptSamplingBatch_law 2 0 [(fork, 3), (twins, 5)] (fun _ => []) (fun _ => coin (3 / 4))
    (fun _ _ => coin (3 / 4)) _
    (by
      intro request member
      rcases (by simpa using member : request = (fork, 3) ∨ request = (twins, 5)) with rfl | rfl
      · exact ⟨0, Tree.checked_wellFormed _ _ (by decide)⟩
      · exact ⟨1, Tree.checked_wellFormed _ _ (by decide)⟩)
    ⟨fun _ _ => fair, fun _ _ _ _ _ _ => rfl⟩ (by decide) (by decide) 0 (fork, 3) rfl 0
    (Tree.checked_wellFormed _ _ (by decide)) (fun tokens _ _ => fair.resolved normal fork tokens)

/-- With both siblings drafted and the second one rarer than the smallest normal
number, the guard halves its chance: the first token is not the target's. -/
theorem acceptSamplingBatch_guarded :
    fork.WellFormed 0 ∧
    Projects 2 [(fork, 1)] (fun _ => []) (fun _ => coin (1 / 2 ^ 127))
      (fun _ _ => coin (1 / 2 ^ 127)) ∧
    ¬ (acceptSamplingBatch 2 [fork] (packTrees [(fork, 1)] 0) (fun _ _ => coin (1 / 2 ^ 127))
        (List.replicate 3 [[(), (), ()]]) >>= fun result => pure (emitted 0 result)).Same
      (Law.ancestral 2 (fun _ => coin (1 / 2 ^ 127)) fork.drafts 1 [0] >>= fun tokens =>
        pure (some tokens.tail)) := by
  refine ⟨Tree.checked_wellFormed _ _ (by decide),
    ⟨fun _ _ => coin_distribution _ (by norm_num) (by norm_num), fun _ _ _ _ _ _ => rfl⟩, ?_⟩
  intro same
  have first := same (fun tokens => if tokens.bind (·.head?) = some 1 then 1 else 0)
  exact absurd first (by decide +kernel)

end SpecBlock.Batch
