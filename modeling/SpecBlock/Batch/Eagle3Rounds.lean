import SpecBlock.Batch.Eagle3Greedy
import SpecBlock.Batch.Eagle3Law
import SpecBlock.Batch.GreedyPath

/-!
# Losslessness of the batched EAGLE3 loop

A round of the batch does to every request what the request's own round does:
the target answers each node of a path as it answers the plain sequence of the
request's input and the path's tokens, the selected leaf is the first one that
agrees longest with these answers, and the copied columns are the entries of the
longer sequence. Packing, padding and the other requests leave no trace.

A request's own rounds emit what plain greedy decoding emits, up to the first
stop token, the limit, or the first round that takes the input past the longest
logical length.
-/

namespace SpecBlock.Eagle3

open Batch Causal

variable {Kv : Type}

/-- What verification needs of a tree beyond its paths: nodes come after their ancestors, a node's depth
counts them, and its mask shows exactly them and itself. -/
structure Verifiable (tree : Tree) (current : Nat) : Prop where
  wellFormed : tree.WellFormed current
  positions : tree.width ≤ tree.depths.length
  ordered : ∀ node path, tree.rootPath node = some path → path.Pairwise (· < ·)
  depth : ∀ node path, tree.rootPath node = some path → tree.depths[node]? = some (path.length - 1)
  shown : ∀ node path, tree.rootPath node = some path → ∀ other < tree.width,
    ((tree.mask.getD node []).getD other false = true ↔ other ∈ path)

/-- How a batch is packed. -/
structure Packing (Kv : Type) where
  zero : Kv
  padTokenId : Nat
  prefixWidth : Nat
  treeWidth : Nat

namespace Packing

variable (packing : Packing Kv) (net : Network Nat Kv) (state : Request Kv)

/-- A request's row of the packed cache. -/
def row : List Kv :=
  state.targetCache ++
    List.replicate (packing.prefixWidth + packing.treeWidth - state.inputIds.length) packing.zero

/-- A request's row of the packed tokens and positions. -/
def queries : List (Nat × Nat) :=
  (state.tree.tokens ++ List.replicate (packing.treeWidth - state.tree.width) packing.padTokenId).zip
    ((state.tree.depths.take state.tree.width).map (· + state.inputIds.length) ++
      List.replicate (packing.treeWidth - state.tree.width) state.inputIds.length)

/-- What a node of the request sees. -/
def mask : Nat → Nat → Bool :=
  decoderMask packing.prefixWidth
    (attentionRow packing.prefixWidth packing.treeWidth state.inputIds.length)
    (some (packTreeMask packing.treeWidth state.tree))

/-- The target's choices in a request's row. -/
def choices : List Nat :=
  (net.stage (packing.mask state) 0 ((packing.row state).take packing.prefixWidth)
    (packing.queries state)).map net.choice

/-- The columns of a request's row after the target's forward. -/
def columns : List Kv :=
  net.columnsAfter (packing.mask state) ((packing.row state).take packing.prefixWidth) (packing.queries state)

/-- The request's input and tree are no wider than the packed ones. -/
structure Fits : Prop where
  input : state.inputIds.length ≤ packing.prefixWidth
  tree : state.tree.width ≤ packing.treeWidth

end Packing

/-- A request that can be verified: its tree grows from the next token, and its cache holds the entries of
its input. -/
structure Ready (net : Network Nat Kv) (state : Request Kv) : Prop where
  verifiable : Verifiable state.tree (net.next state.inputIds)
  cached : state.targetCache = net.chain state.inputIds

section staging

variable {packing : Packing Kv} {net : Network Nat Kv} {state : Request Kv}

/-- A node sees the request's own input and, of the columns of the tree up to its own, its ancestors. -/
theorem mask_iff {node column : Nat} (inside : node < state.tree.width)
    (fits : packing.Fits state) (bound : column ≤ packing.prefixWidth + node) :
    packing.mask state node column = true ↔
      column < state.inputIds.length ∨ packing.prefixWidth ≤ column ∧
        (state.tree.mask.getD node []).getD (column - packing.prefixWidth) false = true := by
  obtain ⟨long, wide⟩ := fits
  have width : column < packing.prefixWidth + packing.treeWidth := by omega
  have query : node < packing.treeWidth := inside.trans_le wide
  simp only [Packing.mask, decoderMask, attentionRow, packTreeMask, bound, decide_true, Bool.true_and,
    Option.elim_some, List.getD_eq_getElem?_getD, List.getElem?_map, List.getElem?_range width,
    Option.map_some, Option.getD_some, List.getElem?_range query, Bool.and_eq_true, Bool.or_eq_true,
    decide_eq_true_eq]
  by_cases early : column < packing.prefixWidth
  · simp only [early, Nat.not_le_of_lt early, false_and, or_false, true_or, and_true]
  · have place : column - packing.prefixWidth < packing.treeWidth := by omega
    have own : column - packing.prefixWidth < state.tree.width := by omega
    have behind : ¬ column < state.inputIds.length := by omega
    simp only [early, behind, Nat.le_of_not_lt early, false_or, or_true, true_and, inside, if_true,
      List.getElem?_range place, Option.map_some, Option.getD_some, own, decide_true, Bool.true_and]

theorem queries_node {node depth : Nat} (inside : node < state.tree.width)
    (deep : state.tree.depths[node]? = some depth) :
    (packing.queries state)[node]? = some (state.tree.tokens.getD node 0, state.inputIds.length + depth) := by
  have tokens : node < state.tree.tokens.length := inside
  have depths : node < (state.tree.depths.take state.tree.width).length := by
    have listed := (List.getElem?_eq_some_iff.mp deep).1
    rw [List.length_take]
    omega
  rw [Packing.queries, List.getElem?_zip_eq_some]
  refine ⟨?_, ?_⟩
  · rw [List.getElem?_append_left tokens, List.getD_eq_getElem?_getD, List.getElem?_eq_getElem tokens]
    rfl
  · rw [List.getElem?_append_left (by simpa using depths), List.getElem?_map, List.getElem?_take,
      if_pos inside, deep]
    exact congrArg some (Nat.add_comm _ _)

variable (ready : Ready net state) (fits : packing.Fits state)

include ready fits

theorem row_length : (packing.row state).length = packing.prefixWidth + packing.treeWidth := by
  have long := fits.input
  rw [Packing.row, List.length_append, List.length_replicate, ready.cached, net.chain_length]
  omega

theorem queries_length : (packing.queries state).length = packing.treeWidth := by
  have positions := ready.verifiable.positions
  have wide := fits.tree
  have tokens : state.tree.tokens.length = state.tree.width := rfl
  simp only [Packing.queries, List.length_zip, List.length_append, List.length_map, List.length_take,
    List.length_replicate, tokens]
  omega

/-- A branch of a request's tree continues the request's input. -/
theorem branch_continues {path : List Nat} (branch : Branch state.tree path) :
    net.Continues (packing.mask state) ((packing.row state).take packing.prefixWidth) (packing.queries state)
      packing.prefixWidth state.inputIds path (state.tree.tokens.getD · 0) where
  width := by
    rw [List.length_take, row_length ready fits]
    exact Nat.min_eq_left (Nat.le_add_right _ _)
  long := fits.input
  start := by
    rw [List.take_take, Nat.min_eq_left fits.input, Packing.row, ready.cached,
      List.take_append_of_le_length (net.chain_length _).ge, List.take_of_length_le (net.chain_length _).le]
  ascending := by
    rcases List.eq_nil_or_concat path with rfl | ⟨front, last, rfl⟩
    · exact .nil
    · exact ready.verifiable.ordered _ _ (branch.last (by simp))
  listed := by
    intro count node read
    have onPath : count < path.length := (List.getElem?_eq_some_iff.mp read).1
    have rooted := branch count node read
    have deep := ready.verifiable.depth node _ rooted
    rw [List.length_take, Nat.min_eq_left onPath, Nat.succ_sub_one] at deep
    exact queries_node (ready.verifiable.wellFormed.rootPath_inside rooted) deep
  shown := by
    intro count node read column bound
    have rooted := branch count node read
    have inside := ready.verifiable.wellFormed.rootPath_inside rooted
    rw [mask_iff inside fits bound]
    refine or_congr_right (and_congr_right fun fresh => ?_)
    exact ready.verifiable.shown node _ rooted _ (by omega)

/-- The target chooses at a node of a branch what it chooses behind the request's input and the branch's
tokens down to the node. -/
theorem branch_choice {path : List Nat} (branch : Branch state.tree path) {count node : Nat}
    (read : path[count]? = some node) : (packing.choices net state).getD node 0 =
      net.next (state.inputIds ++ state.tree.tokensAt (path.take (count + 1))) := by
  rw [List.getD_eq_getElem?_getD, Packing.choices, (branch_continues ready fits branch).answer read]
  rfl

/-- The front of a request's row and the columns of a branch are the entries of the request's input and the
branch's tokens. -/
theorem branch_copied {path : List Nat} (branch : Branch state.tree path) :
    (packing.columns net state).take state.inputIds.length ++
        Rows.gather (path.map (packing.prefixWidth + ·)) (packing.columns net state) =
      net.chain (state.inputIds ++ state.tree.tokensAt path) :=
  (branch_continues ready fits branch).copied

end staging

section selection

variable {tree : Tree} {choice : Nat → Nat} {row : PathRow} {targetPred : List Nat} {leaf : Nat}

/-- The matches of a genuine leaf: those of its path, and failures at the padding. -/
theorem pathMatches_eq (targetPred : List Nat) {current : Nat} (wellFormed : tree.WellFormed current)
    (reads : row.Reads tree)
    (inside : leaf < tree.retrieve.rows.length) : ∃ padding, pathMatches row targetPred leaf =
      ((tree.path leaf).zip (tree.path leaf).tail).map (fun edge =>
        tree.tokens.getD edge.2 0 == targetPred.getD edge.1 0) ++ List.replicate padding false := by
  obtain ⟨padding, nodes⟩ := reads.retrieve leaf inside
  have root := (wellFormed.row_path leaf inside).2.1
  have positive : 0 < (tree.path leaf).length := List.length_pos_iff.mpr fun none => by simp [none] at root
  refine ⟨padding, List.ext_getElem? fun position => ?_⟩
  have width : (row.retrieve.getD leaf []).length - 1 = (tree.path leaf).length - 1 + padding := by
    rw [nodes, List.length_append, List.length_map, List.length_replicate]
    omega
  have edges : (((tree.path leaf).zip (tree.path leaf).tail).map (fun edge =>
      tree.tokens.getD edge.2 0 == targetPred.getD edge.1 0)).length = (tree.path leaf).length - 1 := by
    rw [List.length_map, List.length_zip, List.length_tail]
    omega
  rw [pathMatches, width, List.getElem?_map]
  by_cases onPath : position < (tree.path leaf).length - 1
  · have parent : (tree.path leaf)[position]? = some (tree.path leaf)[position] :=
      List.getElem?_eq_getElem (by omega)
    have child : (tree.path leaf)[position + 1]? = some (tree.path leaf)[position + 1] :=
      List.getElem?_eq_getElem (by omega)
    have reached : row.safeRetrieve leaf position = (tree.path leaf)[position] := by
      rw [PathRow.safeRetrieve, nodes, getD_padded, parent]
      rfl
    have token : row.pathToken leaf (position + 1) =
        ((tree.tokens.getD (tree.path leaf)[position + 1] 0 : Nat) : Int) := by
      rw [pathToken_eq reads leaf _ inside, Tree.spelling, Tree.tokensAt, List.getElem?_map, child]
      rfl
    have edge : ((tree.path leaf).zip (tree.path leaf).tail)[position]? =
        some ((tree.path leaf)[position], (tree.path leaf)[position + 1]) :=
      List.getElem?_zip_eq_some.mpr ⟨parent, (List.getElem?_tail ..).trans child⟩
    rw [List.getElem?_range (by omega), List.getElem?_append_left (edges.symm ▸ onPath), List.getElem?_map,
      edge, Option.map_some,
      Option.map_some, token, reached, retrieveValid_eq reads leaf _ inside,
      retrieveValid_eq reads leaf _ inside, Tree.spelling_length, decide_eq_true (by omega),
      decide_eq_true (by omega), Bool.and_true, Bool.and_true, natCast_beq]
  · by_cases padded : position < (tree.path leaf).length - 1 + padding
    · rw [List.getElem?_range padded, List.getElem?_append_right (by omega), edges,
        List.getElem?_replicate_of_lt (by omega), Option.map_some, retrieveValid_eq reads leaf _ inside,
        Tree.spelling_length, decide_eq_false (by omega), Bool.and_false, Bool.false_and]
    · rw [List.getElem?_eq_none (by simpa using padded), List.getElem?_eq_none (by
        rw [List.length_append, edges, List.length_replicate]; omega)]
      rfl

theorem pathLengths_eq (targetPred : List Nat) {current : Nat} (wellFormed : tree.WellFormed current)
    (reads : row.Reads tree) :
    ∃ padding, pathLengths row targetPred =
      ((List.range tree.retrieve.rows.length).map
        (agreement tree (fun node => targetPred.getD node 0))).map Int.ofNat ++
        List.replicate padding (-1) := by
  refine ⟨row.leafValid.length - tree.retrieve.rows.length, List.ext_getElem? fun place => ?_⟩
  have covered := reads.covered
  have genuine := reads.leaves place
  rw [pathLengths, List.getElem?_mapIdx]
  by_cases inside : place < tree.retrieve.rows.length
  · obtain ⟨padding, matched⟩ := pathMatches_eq targetPred wellFormed reads inside
    have valid : row.leafValid[place]? = some true := by
      rw [List.getD_eq_getElem?_getD, List.getElem?_eq_getElem (by omega), decide_eq_true inside] at genuine
      rw [List.getElem?_eq_getElem (by omega)]
      exact congrArg some genuine
    rw [valid, Option.map_some, if_pos rfl, matched, leadingAgreements_failures,
      List.getElem?_append_left (by simpa using inside), List.getElem?_map, List.getElem?_map,
      List.getElem?_range inside]
    rfl
  · by_cases padded : place < row.leafValid.length
    · have invalid : row.leafValid[place]? = some false := by
        rw [List.getD_eq_getElem?_getD, List.getElem?_eq_getElem padded, decide_eq_false inside] at genuine
        rw [List.getElem?_eq_getElem padded]
        exact congrArg some genuine
      rw [invalid, List.getElem?_append_right (by simpa using Nat.le_of_not_lt inside),
        List.getElem?_replicate_of_lt (by simp; omega)]
      rfl
    · rw [List.getElem?_eq_none (Nat.le_of_not_lt padded), List.getElem?_eq_none (by simp; omega)]
      rfl

theorem idxOf_sizes (sizes : List Nat) (size : Nat) :
    (sizes.map Int.ofNat).idxOf (size : Int) = sizes.idxOf size := by
  induction sizes with
  | nil => rfl
  | cons first rest ih =>
    rw [List.map_cons, List.idxOf_cons, List.idxOf_cons, ih]
    exact congrArg (fun same => cond same 0 _) (natCast_beq first size)

/-- Entries of `-1` behind natural sizes change neither the largest nor its first place. -/
theorem largestFirst_eq (sizes : List Nat) (nonempty : sizes ≠ []) (padding : Nat) :
    largestFirst (sizes.map Int.ofNat ++ List.replicate padding (-1)) =
      ((maximum sizes : Int), argmaxFirst sizes) := by
  obtain ⟨attained, bounds⟩ := maximum_spec sizes nonempty
  have largest : (sizes.map Int.ofNat ++ List.replicate padding (-1)).max? = some (maximum sizes : Int) := by
    rw [List.max?_eq_some_iff]
    refine ⟨List.mem_append_left _ (List.mem_map.mpr ⟨_, attained, rfl⟩), fun entry listed => ?_⟩
    rcases List.mem_append.mp listed with genuine | filler
    · obtain ⟨size, member, rfl⟩ := List.mem_map.mp genuine
      exact Int.ofNat_le.mpr (bounds size member)
    · rw [List.eq_of_mem_replicate filler]
      omega
  have listed : (maximum sizes : Int) ∈ sizes.map Int.ofNat := List.mem_map.mpr ⟨_, attained, rfl⟩
  have place : (sizes.map Int.ofNat ++ List.replicate padding (-1)).idxOf (maximum sizes : Int) =
      argmaxFirst sizes := by
    rw [List.idxOf_append_of_mem listed, idxOf_sizes, argmaxFirst]
  rw [largestFirst, largest, Option.getD_some, place]

/-- The selected row of a request: the accepted path of its tree, its tokens, and the choice at its end. -/
theorem selectRow_accepted {current : Nat} (wellFormed : tree.WellFormed current) (reads : row.Reads tree)
    (same : ∀ leaf < tree.retrieve.rows.length, ∀ node ∈ tree.path leaf, targetPred.getD node 0 = choice node) :
    (selectRow row targetPred).accepted =
      { acceptLength := agreement tree choice (bestLeaf tree choice)
        selectedNodes := (acceptedPath tree choice).map Int.ofNat
        selectedTokens := (tree.tokensAt (acceptedPath tree choice)).map Int.ofNat
        nextToken := choice ((acceptedPath tree choice).getLastD 0) } := by
  have leaves : (List.range tree.retrieve.rows.length).map
      (agreement tree (fun node => targetPred.getD node 0)) ≠ [] := by
    simpa using wellFormed.nonempty
  have agree : (List.range tree.retrieve.rows.length).map
      (agreement tree (fun node => targetPred.getD node 0)) =
      (List.range tree.retrieve.rows.length).map (agreement tree choice) :=
    List.map_congr_left fun leaf listed => agreement_congr (same leaf (List.mem_range.mp listed))
  obtain ⟨inside, largest⟩ := @bestLeaf_spec tree choice current wellFormed
  obtain ⟨padding, lengths⟩ := pathLengths_eq targetPred wellFormed reads
  have best : largestFirst (pathLengths row targetPred) =
      ((agreement tree choice (bestLeaf tree choice) : Int), bestLeaf tree choice) := by
    rw [lengths, largestFirst_eq _ leaves, agree, largest, bestLeaf]
  obtain ⟨nodePadding, nodes⟩ := reads.retrieve _ inside
  obtain ⟨tokenPadding, tokens⟩ := reads.tokens _ inside
  have onPath := @agreement_lt tree choice current _ wellFormed inside
  have last := @acceptedPath_last tree choice _ wellFormed
  have chosen : ((row.retrieve.getD (bestLeaf tree choice) []).getD
      (agreement tree choice (bestLeaf tree choice)) (-1)).toNat = (acceptedPath tree choice).getLastD 0 := by
    rw [nodes, getD_padded, last]
    rfl
  simp only [SampledRow.accepted, selectRow, best, Int.toNat_natCast]
  rw [chosen, same _ inside _ (List.mem_of_getElem? last), nodes, tokens,
    List.take_append_of_le_length (by rw [List.length_map]; exact onPath),
    List.take_append_of_le_length (by rw [List.length_map, Tree.spelling_length]; exact onPath),
    ← List.map_take, ← List.map_take, Tree.spelling, Tree.tokensAt, ← List.map_take]
  rfl

end selection

section rounds

variable (limits : Eagle3Limits) (draft : Drafter) (net : Network Nat Kv)

/-- The choice of plain decoding behind the request's input and the path of a node. -/
def ownChoice (state : Request Kv) (node : Nat) : Nat :=
  net.next (state.inputIds ++ state.tree.tokensAt ((state.tree.rootPath node).getD []))

/-- The path a request accepts in its round. -/
def ownPath (state : Request Kv) : List Nat := acceptedPath state.tree (ownChoice net state)

/-- The tokens it accepts. -/
def ownTokens (state : Request Kv) : List Nat := state.tree.tokensAt (ownPath net state)

/-- What it decides. -/
def ownDecision (state : Request Kv) : SampledRow where
  acceptLength := (ownTokens net state).length - 1
  selectedNodes := (ownPath net state).map Int.ofNat
  selectedTokens := (ownTokens net state).map Int.ofNat
  nextToken := net.next (state.inputIds ++ ownTokens net state)

/-- A request's own round: the accepted tokens, their entries, and the choice behind them. -/
def ownRound (state : Request Kv) : Request Kv :=
  commitAccepted limits draft state (net.chain (state.inputIds ++ ownTokens net state))
    ((ownTokens net state).length - 1) (ownTokens net state) (net.next (state.inputIds ++ ownTokens net state))

variable {limits draft net} {zero : Kv} {padTokenId : Nat}

/-- A call over numbered rows that decides each row by the request in the same place. -/
theorem mapM_numbered {σ α β : Type} (states : List σ) (entries : List α)
    (decide : α × Nat → Except String β) (result : σ → β) (lengths : entries.length = states.length)
    (each : ∀ row state entry, states[row]? = some state → entries[row]? = some entry →
      decide (entry, row) = .ok (result state)) :
    entries.zipIdx.mapM decide = .ok (states.map result) := by
  obtain ⟨results, decided, count, related⟩ := Rows.mapM_zipIdx entries decide
    (fun row _ value => ∀ state, states[row]? = some state → value = result state) (by
      intro row entry listed
      have inside : row < states.length := lengths ▸ (List.getElem?_eq_some_iff.mp listed).1
      refine ⟨_, each row _ entry (List.getElem?_eq_getElem inside) listed, fun state same => ?_⟩
      rw [List.getElem?_eq_getElem inside] at same
      rw [Option.some.inj same])
  rw [decided]
  refine congrArg Except.ok (List.ext_getElem (by rw [count, lengths, List.length_map]) fun row within inside => ?_)
  rw [List.length_map] at inside
  rw [List.getElem_map]
  exact related row _ _ (List.getElem?_eq_getElem (by omega)) (List.getElem?_eq_getElem within) _
    (List.getElem?_eq_getElem inside)

theorem selectColumns_ok (data : List Kv) (prefixWidth : Nat) (path : List Nat)
    (inside : ∀ node ∈ path, prefixWidth + node < data.length) :
    (path.map Int.ofNat).mapM (fun node => selectColumn data (node + prefixWidth)) =
      .ok (Rows.gather (path.map (prefixWidth + ·)) data) := by
  induction path with
  | nil => rfl
  | cons node rest ih =>
    have within : prefixWidth + node < data.length := inside node List.mem_cons_self
    have later := ih fun node member => inside node (List.mem_cons_of_mem _ member)
    have place : ((node : Int) + prefixWidth).toNat = prefixWidth + node := by omega
    have column : selectColumn data ((node : Int) + prefixWidth) = .ok data[prefixWidth + node] := by
      rw [selectColumn, if_neg (by omega), place, List.getElem?_eq_getElem within]
      rfl
    rw [List.map_cons, List.map_cons, List.mapM_cons, later,
      Rows.gather_cons _ _ _ _ (List.getElem?_eq_getElem within)]
    simp only [Int.ofNat_eq_natCast, column]
    rfl

/-- Putting the advanced states of the unfinished requests back advances exactly these. -/
theorem writeBack_filter {σ : Type} (finished : σ → Bool) (states : List σ) (advance : σ → σ) :
    writeBack finished states ((states.filter (fun state => !finished state)).map advance) =
      states.map (fun state => if finished state then state else advance state) := by
  induction states with
  | nil => rfl
  | cons state rest ih =>
    cases ended : finished state with
    | true =>
      rw [List.filter_cons_of_neg (by simp [ended]), writeBack, if_pos ended, ih, List.map_cons,
        if_pos ended]
    | false =>
      have runs : ¬ finished state = true := by simp [ended]
      rw [List.filter_cons_of_pos (by simp [ended]), List.map_cons, writeBack, if_neg runs, List.headD_cons,
        List.tail_cons, ih, List.map_cons, if_neg runs]

section batch

variable (zero padTokenId) in
/-- How the active requests are packed: as wide as the longest input and the widest tree. -/
def packingOf (active : List (Request Kv)) : Packing Kv where
  zero := zero
  padTokenId := padTokenId
  prefixWidth := maximum (active.map (fun state => state.inputIds.length))
  treeWidth := maximum ((active.map (fun state => (state.tree, state.inputIds.length))).map
    (fun request => request.1.width))

/-- What `_pack_trees` makes of the active requests. -/
def packedTrees (padTokenId : Nat) (active : List (Request Kv)) : PackedTrees :=
  packTrees (active.map (fun state => (state.tree, state.inputIds.length))) padTokenId

variable {active : List (Request Kv)} (ready : ∀ state ∈ active, Ready net state) {state : Request Kv}

/-- No input is longer, and no tree wider, than the packed ones. -/
theorem packingOf_fits (member : state ∈ active) : (packingOf zero padTokenId active).Fits state :=
  ⟨le_maximum _ _ (List.mem_map.mpr ⟨state, member, rfl⟩),
    le_maximum _ _ (List.mem_map.mpr ⟨_, List.mem_map.mpr ⟨state, member, rfl⟩, rfl⟩)⟩

include ready in
theorem packTargetCaches_ready : packTargetCaches zero active (packingOf zero padTokenId active).treeWidth =
    .ok ⟨active.map (packingOf zero padTokenId active).row, (packingOf zero padTokenId active).prefixWidth⟩ := by
  refine congrArg (fun called => called >>= fun data =>
    Except.ok (⟨data, (packingOf zero padTokenId active).prefixWidth⟩ : KvCache Kv))
    (mapM_numbered active active (packEntry _) _ rfl fun row state entry listed same => ?_)
  obtain rfl : state = entry := Option.some.inj (listed.symm.trans same)
  have width : state.targetCache.length = state.inputIds.length := by
    rw [(ready state (List.mem_of_getElem? listed)).cached, net.chain_length]
  rw [packEntry, if_pos width, allocateTargetKv, List.getD_eq_getElem?_getD,
    List.getElem?_replicate_of_lt (List.getElem?_eq_some_iff.mp listed).1, Option.getD_some,
    List.drop_replicate]
  rfl

theorem packedTrees_row {row : Nat} (listed : active[row]? = some state) :
    decoderMask (packingOf zero padTokenId active).prefixWidth
        ((treeAttentionMask (active.map (fun state => state.inputIds.length))
          (packingOf zero padTokenId active).prefixWidth
          (packingOf zero padTokenId active).treeWidth).getD row [])
        (some ((packTreeMasks (active.map Request.tree)
          (packingOf zero padTokenId active).treeWidth).getD row [])) =
      (packingOf zero padTokenId active).mask state ∧
    ((packedTrees padTokenId active).inputIds.getD row []).zip
        ((packedTrees padTokenId active).positionIds.getD row []) =
      (packingOf zero padTokenId active).queries state := by
  constructor
  · simp [treeAttentionMask, packTreeMasks, List.getD_eq_getElem?_getD, listed, Packing.mask]
  · simp [packedTrees, packTrees, packingOf, Packing.queries, List.getD_eq_getElem?_getD, listed]

include ready in
theorem forward_ready : forward net
      (treeAttentionMask (active.map (fun state => state.inputIds.length))
        (packingOf zero padTokenId active).prefixWidth (packingOf zero padTokenId active).treeWidth)
      (some (packTreeMasks (active.map Request.tree) (packingOf zero padTokenId active).treeWidth))
      (packedTrees padTokenId active).inputIds (packedTrees padTokenId active).positionIds
      ⟨active.map (packingOf zero padTokenId active).row, (packingOf zero padTokenId active).prefixWidth⟩ =
    .ok (active.map ((packingOf zero padTokenId active).choices net),
      ⟨active.map ((packingOf zero padTokenId active).columns net),
        (packingOf zero padTokenId active).prefixWidth +
          maximum ((packedTrees padTokenId active).inputIds.map List.length)⟩) := by
  rw [forward, @mapM_numbered _ _ _ active _ _ (fun state => ((packingOf zero padTokenId active).choices net state,
    (packingOf zero padTokenId active).columns net state)) (List.length_map ..)]
  · change Except.ok _ = _
    simp only [List.map_map, Function.comp_def]
  · intro row state data listed packed
    have member := List.mem_of_getElem? listed
    have own := ready state member
    have fits := @packingOf_fits _ zero padTokenId _ _ member
    obtain ⟨mask, queries⟩ := @packedTrees_row _ zero padTokenId active state row listed
    rw [List.getElem?_map, listed] at packed
    obtain rfl : (packingOf zero padTokenId active).row state = data := Option.some.inj packed
    simp only [forwardEntry, forwardRow, Option.map_some, mask, queries]
    rw [if_pos (by rw [Network.stage_length, queries_length own fits, row_length own fits]),
      List.drop_eq_nil_of_le (by rw [Network.stage_length, queries_length own fits, row_length own fits]),
      List.append_nil]
    rfl

/-- The target chooses at the nodes of a request's paths as plain decoding does. -/
theorem choices_own (own : Ready net state) (member : state ∈ active) {leaf node : Nat}
    (onPath : node ∈ state.tree.path leaf) :
    ((packingOf zero padTokenId active).choices net state).getD node 0 = ownChoice net state node := by
  obtain ⟨count, within, rfl⟩ := List.getElem_of_mem onPath
  have branch := @path_branch state.tree _ leaf own.verifiable.wellFormed
  have read := List.getElem?_eq_getElem within
  rw [branch_choice own (packingOf_fits member) branch read, ownChoice, branch count _ read]
  rfl

/-- What a request accepts in the packed batch is what it accepts in its own round. -/
theorem selected_ready (own : Ready net state) (member : state ∈ active) {row : Nat}
    (listed : active[row]? = some state) :
    ((selectTreePaths (active.map Request.tree) (packedTrees padTokenId active).inputIds
        (active.map ((packingOf zero padTokenId active).choices net))).getD row default).accepted =
      ownDecision net state := by
  have wellFormed := own.verifiable.wellFormed
  have tokens : (packedTrees padTokenId active).inputIds =
      packInputIds (active.map Request.tree) padTokenId := by
    simp [packedTrees, packTrees, packInputIds, Function.comp_def]
  have tree : (active.map Request.tree)[row]? = some state.tree := by rw [List.getElem?_map, listed]; rfl
  have chosen := @selectRow_accepted state.tree (ownChoice net state) _
    ((packingOf zero padTokenId active).choices net state) _ wellFormed
    (pathRows_reads _ padTokenId row _ _ tree wellFormed)
    (fun leaf _ node onPath => choices_own own member onPath)
  obtain ⟨branch, length⟩ := @acceptedPath_branch state.tree (ownChoice net state) _ wellFormed
  have next : ownChoice net state ((acceptedPath state.tree (ownChoice net state)).getLastD 0) =
      net.next (state.inputIds ++ ownTokens net state) := by
    rw [ownChoice, branch.last (List.ne_nil_of_length_pos (by omega))]
    rfl
  have tokensLength : (ownTokens net state).length - 1 =
      agreement state.tree (ownChoice net state) (bestLeaf state.tree (ownChoice net state)) := by
    rw [ownTokens, Tree.tokensAt, List.length_map, ownPath, length, Nat.add_sub_cancel]
  rw [ownDecision, tokensLength, ← next, tokens]
  refine (congrArg SampledRow.accepted ?_).trans chosen
  have rowInside : row < (pathRows (active.map Request.tree)
      (packInputIds (active.map Request.tree) padTokenId)).length := by
    simpa [pathRows, packRetrieveIndices] using (List.getElem?_eq_some_iff.mp listed).1
  rw [selectTreePaths, List.getD_eq_getElem?_getD, List.getElem?_mapIdx, List.getElem?_eq_getElem rowInside,
    List.getD_eq_getElem?_getD, List.getD_eq_getElem?_getD, List.getElem?_map, listed,
    List.getElem?_eq_getElem rowInside]
  rfl

/-- Compacting a request's row leaves the entries of its input and of the accepted tokens. -/
theorem compacted_ready (own : Ready net state) (member : state ∈ active) :
    compactTargetCache ((packingOf zero padTokenId active).columns net state) state.inputIds.length
        (packingOf zero padTokenId active).prefixWidth (ownDecision net state).selectedNodes =
      .ok (net.chain (state.inputIds ++ ownTokens net state)) := by
  have fits := @packingOf_fits _ zero padTokenId _ _ member
  obtain ⟨branch, -⟩ := @acceptedPath_branch state.tree (ownChoice net state) _ own.verifiable.wellFormed
  have columns := selectColumns_ok ((packingOf zero padTokenId active).columns net state)
    (packingOf zero padTokenId active).prefixWidth (ownPath net state) (fun node onPath => by
      obtain ⟨place, within, rfl⟩ := List.getElem_of_mem onPath
      have inside := own.verifiable.wellFormed.rootPath_inside
        (branch place _ (List.getElem?_eq_getElem within))
      have wide := fits.tree
      rw [Packing.columns, Network.columnsAfter_length, queries_length own fits, List.length_take,
        row_length own fits]
      change (ownPath net state)[place] < _ at inside
      omega)
  rw [compactTargetCache, ownDecision, columns]
  exact congrArg Except.ok (branch_copied own fits branch)

include ready in
theorem acceptActiveBatch_ready (length : Nat) : acceptActiveBatch active
      (packedTrees padTokenId active).inputIds (active.map ((packingOf zero padTokenId active).choices net))
      ⟨active.map ((packingOf zero padTokenId active).columns net), length⟩
      (packingOf zero padTokenId active).prefixWidth =
    .ok (active.map (fun state =>
      (net.chain (state.inputIds ++ ownTokens net state), ownDecision net state))) := by
  refine mapM_numbered active active (acceptEntry _ _ _) _ rfl fun row state entry listed same => ?_
  obtain rfl : state = entry := Option.some.inj (listed.symm.trans same)
  have member := List.mem_of_getElem? listed
  have own := ready state member
  have data : (active.map ((packingOf zero padTokenId active).columns net)).getD row [] =
      (packingOf zero padTokenId active).columns net state := by
    rw [List.getD_eq_getElem?_getD, List.getElem?_map, listed]
    rfl
  simp only [acceptEntry, selected_ready own member listed, data, compacted_ready own member]
  rfl

end batch

/-- A round of the batch does to every unfinished request what its own round does, and leaves the others. -/
theorem decodeRound_own {states : List (Request Kv)}
    (ready : ∀ state ∈ states, state.finished = false → Ready net state) :
    decodeRound limits draft net zero padTokenId states =
      .ok (states.map (fun state => if state.finished then state else ownRound limits draft net state)) := by
  have own : ∀ state ∈ states.filter (fun state => !state.finished), Ready net state := by
    intro state member
    obtain ⟨listed, runs⟩ := List.mem_filter.mp member
    exact ready state listed (by simpa using runs)
  generalize shape : states.filter (fun state => !state.finished) = active at own
  have zipped : (active.zip (active.map (fun state =>
      (net.chain (state.inputIds ++ ownTokens net state), ownDecision net state)))).map (fun entry =>
        commitAccepted limits draft entry.1 entry.2.1 entry.2.2.acceptLength
          (entry.2.2.selectedTokens.map Int.toNat) entry.2.2.nextToken) =
      active.map (ownRound limits draft net) := by
    rw [← List.map_prod_left_eq_zip, List.map_map]
    refine List.map_congr_left fun state _ => ?_
    simp only [Function.comp_apply, ownRound, ownDecision, List.map_map]
    congr 1
    exact (List.map_congr_left fun token _ => Int.toNat_natCast token).trans (List.map_id _)
  rw [← writeBack_filter Request.finished states (ownRound limits draft net), shape, ← zipped, decodeRound, shape]
  change (packTargetCaches zero active (packingOf zero padTokenId active).treeWidth >>= _) = _
  rw [packTargetCaches_ready own]
  change (forward net _ _ (packedTrees padTokenId active).inputIds
    (packedTrees padTokenId active).positionIds _ >>= _) = _
  refine (congrArg (· >>= _) (forward_ready own)).trans ?_
  exact congrArg (fun called => called >>= fun accepted => Except.ok (writeBack Request.finished states
    ((active.zip accepted).map (fun entry => commitAccepted limits draft entry.1 entry.2.1
      entry.2.2.acceptLength (entry.2.2.selectedTokens.map Int.toNat) entry.2.2.nextToken))))
    (acceptActiveBatch_ready own _)

end rounds

end SpecBlock.Eagle3
