import Mathlib.Data.List.Find
import SpecBlock.Batch.Eagle3Sampling

/-!
# Law of the EAGLE3 sampler

At a position of the loop a row that accepted a prefix up to there is in one of
three situations, and the masks tell them apart: the drawn token is drafted after
the prefix and the row moves on, some other token is and the row stops with its
draw, or none is and the row idles through the remaining positions. In the last
case the draw at the end is from the same target at the same prefix, so in every
case one token with the target's law follows the prefix. The induction over the
positions to come turns this into ancestral sampling.

The selected leaf is always the first leaf that carries the accepted tokens.
Hence everything a row returns is determined by the tokens it emits, and the
results of the batch are independent draws, one for each row, that do not mention
the other requests.
-/

namespace SpecBlock.Eagle3

open Batch Rejection

/-- The first leaf whose path spells the given tokens. -/
def leafOf (tree : Tree) (tokens : List Nat) : Nat :=
  ((List.range tree.retrieve.rows.length).find? (fun leaf =>
    decide (tokens <+: tree.spelling leaf))).getD 0

/-- Whether some path continues the given tokens. -/
def continues (tree : Tree) (tokens : List Nat) : Bool :=
  (List.range tree.retrieve.rows.length).any (fun leaf =>
    decide (tokens <+: tree.spelling leaf ∧ tokens.length < (tree.spelling leaf).length))

section tree

variable {tree : Tree} {tokens : List Nat}

theorem drafts_iff : tree.drafts tokens = true ↔
    ∃ leaf < tree.retrieve.rows.length, tokens <+: tree.spelling leaf := by
  simp [Tree.drafts]

/-- Drafted tokens are spelled by the first leaf that carries them. -/
theorem leafOf_walking (drafted : tree.drafts tokens = true) (started : tokens ≠ []) :
    tree.Walking (leafOf tree tokens) tokens := by
  obtain ⟨leaf, inside, agrees⟩ := drafts_iff.mp drafted
  have found : ((List.range tree.retrieve.rows.length).find? (fun leaf =>
      decide (tokens <+: tree.spelling leaf))).isSome = true := by
    rw [List.find?_isSome]
    exact ⟨leaf, List.mem_range.mpr inside, decide_eq_true agrees⟩
  obtain ⟨first, same⟩ := Option.isSome_iff_exists.mp found
  have selected : leafOf tree tokens = first := by rw [leafOf, same, Option.getD_some]
  rw [selected]
  exact ⟨List.mem_range.mp (List.mem_of_find?_eq_some same), started,
    of_decide_eq_true (List.find?_some (p := fun leaf => decide (tokens <+: tree.spelling leaf)) same)⟩

theorem continues_of_drafts (token : Nat) (drafted : tree.drafts (tokens ++ [token]) = true) :
    continues tree tokens = true := by
  obtain ⟨leaf, inside, agrees⟩ := drafts_iff.mp drafted
  have longer := agrees.length_le
  rw [List.length_append, List.length_singleton] at longer
  simp only [continues, List.any_eq_true, List.mem_range, decide_eq_true_eq]
  exact ⟨leaf, inside, (List.prefix_append _ _).trans agrees, longer⟩

/-- When no path continues the tokens, a path that spells them ends with them. -/
theorem ended_of_not_continues (leaf : Nat) (walking : tree.Walking leaf tokens)
    (ended : continues tree tokens = false) : (tree.spelling leaf).length ≤ tokens.length := by
  by_contra longer
  have found : continues tree tokens = true := by
    simp only [continues, List.any_eq_true, List.mem_range, decide_eq_true_eq]
    exact ⟨leaf, walking.inside, walking.spelled, Nat.lt_of_not_le longer⟩
  rw [found] at ended
  cases ended

theorem continues_beyond {current : Nat} (wellFormed : tree.WellFormed current) (tokens : List Nat)
    (long : tree.retrieve.width ≤ tokens.length) : continues tree tokens = false := by
  rw [Bool.eq_false_iff]
  intro continued
  simp only [continues, List.any_eq_true, List.mem_range, decide_eq_true_eq] at continued
  obtain ⟨leaf, inside, _, longer⟩ := continued
  have bounded : (tree.path leaf).length ≤ tree.retrieve.width := by
    have member : tree.retrieve.rows.getD leaf [] ∈ tree.retrieve.rows := by
      simp [List.getD_eq_getElem?_getD, inside]
    obtain ⟨⟨padding, shape⟩, -, -⟩ := wellFormed.row_path leaf inside
    have width := tree.retrieve.rectangular _ member
    rw [shape, List.length_append, List.length_map] at width
    omega
  rw [Tree.spelling_length] at longer
  omega

end tree

section masks

variable {row : PathRow} {tree : Tree} {tokens : List Nat}
  (reads : row.Reads tree)
include reads

/-- A path has a node exactly at the positions of its spelling. -/
theorem retrieveValid_eq (leaf position : Nat) (inside : leaf < tree.retrieve.rows.length) :
    row.retrieveValid leaf position = decide (position < (tree.spelling leaf).length) := by
  obtain ⟨padding, nodes⟩ := reads.retrieve leaf inside
  rw [PathRow.retrieveValid, nodes, getD_padded, Tree.spelling_length]
  by_cases onPath : position < (tree.path leaf).length
  · simp [onPath]
  · simp [onPath]

/-- The token of a path is that of its spelling, or the sentinel. -/
theorem pathToken_eq (leaf position : Nat) (inside : leaf < tree.retrieve.rows.length) :
    row.pathToken leaf position = (tree.spelling leaf)[position]?.elim (-1) Int.ofNat := by
  obtain ⟨padding, shape⟩ := reads.tokens leaf inside
  rw [PathRow.pathToken, shape, getD_padded]

/-- Leaves match a selected one when their spellings are long enough and agree
with its spelling up to the position. -/
theorem prefixMatches_iff (position selected leaf : Nat)
    (genuine : selected < tree.retrieve.rows.length) :
    row.prefixMatches position selected leaf = true ↔
      leaf < tree.retrieve.rows.length ∧ position ≤ (tree.spelling leaf).length ∧
      ∀ earlier < position, (tree.spelling leaf)[earlier]? = (tree.spelling selected)[earlier]? := by
  simp only [PathRow.prefixMatches, reads.leaves, Bool.and_eq_true, decide_eq_true_eq,
    List.all_eq_true, List.mem_range, beq_iff_eq, and_assoc]
  refine and_congr_right (fun inside => ?_)
  have long : (∀ earlier < position, row.retrieveValid leaf earlier = true) ↔
      position ≤ (tree.spelling leaf).length := by
    simp only [retrieveValid_eq reads leaf _ inside, decide_eq_true_eq]
    constructor
    · intro all
      by_contra short
      exact absurd (all _ (Nat.lt_of_not_le short)) (Nat.lt_irrefl _)
    · intro enough earlier before
      omega
  rw [long]
  refine and_congr_right (fun enough => forall₂_congr (fun earlier before => ?_))
  rw [pathToken_eq reads leaf earlier inside, pathToken_eq reads selected earlier genuine,
    List.getElem?_eq_getElem (show earlier < (tree.spelling leaf).length by omega)]
  cases (tree.spelling selected)[earlier]? <;> simp

/-- The position after the accepted tokens: leaves match when they spell them. -/
theorem prefixMatches_live (selected leaf : Nat) (walking : tree.Walking selected tokens) :
    row.prefixMatches tokens.length selected leaf =
      decide (leaf < tree.retrieve.rows.length ∧ tokens <+: tree.spelling leaf) := by
  rw [Bool.eq_iff_iff, prefixMatches_iff reads _ _ _ walking.inside, decide_eq_true_eq]
  refine and_congr_right (fun _ => ?_)
  have spelled := List.prefix_iff_getElem?.mp walking.spelled
  rw [List.prefix_iff_getElem?]
  constructor
  · rintro ⟨_, agree⟩ earlier before
    rw [agree earlier before, spelled earlier before]
  · intro agree
    refine ⟨?_, fun earlier before => by rw [agree earlier before, spelled earlier before]⟩
    exact (List.prefix_iff_getElem?.mpr agree).length_le

theorem prefixMatches_ended (position selected leaf : Nat)
    (genuine : selected < tree.retrieve.rows.length)
    (ended : (tree.spelling selected).length < position) :
    row.prefixMatches position selected leaf = false := by
  rw [Bool.eq_false_iff]
  intro found
  obtain ⟨_, enough, agree⟩ := (prefixMatches_iff reads _ _ _ genuine).mp found
  have last := agree _ ended
  rw [List.getElem?_eq_getElem (Nat.lt_of_lt_of_le ended enough),
    List.getElem?_eq_none (Nat.le_refl _)] at last
  cases last

/-- The node at the end of the accepted tokens, on any leaf that carries them. -/
theorem node_spells {current : Nat} (wellFormed : tree.WellFormed current) (leaf : Nat)
    (walking : tree.Walking leaf tokens) :
    ∃ nodes, tree.rootPath (row.safeRetrieve leaf (tokens.length - 1)) = some nodes ∧
      tree.tokensAt nodes = tokens := by
  have positive : 0 < tokens.length := List.length_pos_iff.mpr walking.started
  have onPath : tokens.length - 1 < (tree.path leaf).length := by
    have bound := walking.spelled.length_le
    rw [Tree.spelling_length] at bound
    omega
  obtain ⟨padding, shape⟩ := reads.retrieve leaf walking.inside
  have node : row.safeRetrieve leaf (tokens.length - 1) = (tree.path leaf)[tokens.length - 1] := by
    rw [PathRow.safeRetrieve, shape, getD_padded, List.getElem?_eq_getElem onPath]
    rfl
  rw [node]
  refine ⟨_, wellFormed.rootPath_path leaf _ _ (List.getElem?_eq_getElem onPath), ?_⟩
  rw [Nat.sub_add_cancel positive, Tree.tokensAt, List.map_take, ← Tree.tokensAt]
  exact (List.prefix_iff_eq_take.mp walking.spelled).symm

theorem firstLeaf_eq (mask : Nat → Bool) (genuine : Nat → Prop) [DecidablePred genuine]
    (masked : ∀ leaf, mask leaf = decide (leaf < tree.retrieve.rows.length ∧ genuine leaf)) :
    row.firstLeaf mask = ((List.range tree.retrieve.rows.length).find? (fun leaf =>
      decide (genuine leaf))).getD 0 := by
  obtain ⟨extra, total⟩ := Nat.exists_eq_add_of_le reads.covered
  have beyond : ((List.range extra).map (tree.retrieve.rows.length + ·)).find? mask = none := by
    rw [List.find?_eq_none]
    intro leaf member
    obtain ⟨past, _, rfl⟩ := List.mem_map.mp member
    simp [masked]
  have within : (List.range tree.retrieve.rows.length).find? mask =
      (List.range tree.retrieve.rows.length).find? (fun leaf => decide (genuine leaf)) := by
    refine List.find?_congr (fun leaf member => ?_)
    simp [masked, List.mem_range.mp member]
  rw [PathRow.firstLeaf, total, List.range_add, List.find?_append, beyond, within, Option.or_none]

theorem anyLeaf_eq (mask : Nat → Bool) (genuine : Nat → Prop) [DecidablePred genuine]
    (masked : ∀ leaf, mask leaf = decide (leaf < tree.retrieve.rows.length ∧ genuine leaf)) :
    row.anyLeaf mask =
      (List.range tree.retrieve.rows.length).any (fun leaf => decide (genuine leaf)) := by
  rw [Bool.eq_iff_iff]
  simp only [PathRow.anyLeaf, masked, List.any_eq_true, List.mem_range, decide_eq_true_eq]
  constructor
  · rintro ⟨leaf, _, inside, holds⟩
    exact ⟨leaf, inside, holds⟩
  · rintro ⟨leaf, inside, holds⟩
    exact ⟨leaf, Nat.lt_of_lt_of_le inside reads.covered, inside, holds⟩

end masks

section step

variable {row : PathRow} {tree : Tree} {tokens : List Nat}

theorem advance_idle (position : Nat) (state : Sampler) (sampled : Nat)
    (childless : hasChild row position state = false) :
    advance row position state sampled = state := by
  simp [advance, childless]

theorem hasChild_stopped (position : Nat) (state : Sampler) (stopped : state.stopped = true) :
    hasChild row position state = false := by
  simp [hasChild, stopped]

variable (reads : row.Reads tree)
include reads

/-- Right after its accepted tokens a row has a child when some path continues them. -/
theorem hasChild_live (state : Sampler) (walking : tree.Walking state.selectedLeaf tokens)
    (running : state.stopped = false) :
    hasChild row tokens.length state = continues tree tokens := by
  rw [hasChild, running, Bool.not_false, Bool.and_true, continues]
  refine anyLeaf_eq reads _ _ (fun leaf => ?_)
  rw [prefixMatches_live reads _ _ walking]
  by_cases inside : leaf < tree.retrieve.rows.length
  · rw [retrieveValid_eq reads leaf _ inside]
    simp [inside]
  · simp [inside]

theorem hasChild_ended (position : Nat) (state : Sampler)
    (genuine : state.selectedLeaf < tree.retrieve.rows.length)
    (ended : (tree.spelling state.selectedLeaf).length < position) :
    hasChild row position state = false := by
  have none_match : ∀ leaf, row.prefixMatches position state.selectedLeaf leaf = false :=
    fun leaf => prefixMatches_ended reads position _ leaf genuine ended
  simp [hasChild, PathRow.anyLeaf, none_match]

/-- Leaves match the drawn token when their paths spell it after the prefix. -/
theorem childMatches_live (selected sampled leaf : Nat) (walking : tree.Walking selected tokens) :
    childMatches row tokens.length selected sampled leaf =
      decide (leaf < tree.retrieve.rows.length ∧ tokens ++ [sampled] <+: tree.spelling leaf) := by
  rw [childMatches, prefixMatches_live reads _ _ walking]
  by_cases inside : leaf < tree.retrieve.rows.length
  · rw [retrieveValid_eq reads leaf _ inside, pathToken_eq reads leaf _ inside, Bool.eq_iff_iff]
    simp only [inside, true_and, Bool.and_eq_true, decide_eq_true_eq, beq_iff_eq]
    constructor
    · rintro ⟨⟨⟨rest, spelled⟩, longer⟩, same⟩
      rw [← spelled] at longer same ⊢
      cases rest with
      | nil => simp at longer
      | cons first rest =>
        obtain rfl : first = sampled := by simpa using same
        exact ⟨rest, by simp⟩
    · rintro ⟨rest, spelled⟩
      refine ⟨⟨⟨sampled :: rest, by simp [← spelled]⟩, ?_⟩, ?_⟩
      · rw [← spelled]
        simp
      · rw [← spelled]
        simp
  · simp [inside]

/-- A drafted draw moves the row to the first leaf that carries it. -/
theorem advance_drafted (selected next sampled : Nat) (walking : tree.Walking selected tokens)
    (drafted : tree.drafts (tokens ++ [sampled]) = true) :
    advance row tokens.length ⟨selected, tokens.length - 1, false, next⟩ sampled =
      ⟨leafOf tree (tokens ++ [sampled]), tokens.length, false, next⟩ := by
  have positive : 0 < tokens.length := List.length_pos_iff.mpr walking.started
  have child := hasChild_live reads ⟨selected, tokens.length - 1, false, next⟩ walking rfl
  rw [continues_of_drafts sampled drafted] at child
  have matched := anyLeaf_eq reads _ _ (fun leaf => childMatches_live reads selected sampled leaf walking)
  have first := firstLeaf_eq reads _ _ (fun leaf => childMatches_live reads selected sampled leaf walking)
  have some_leaf : row.anyLeaf (childMatches row tokens.length selected sampled) = true :=
    matched.trans drafted
  simp only [advance, child, some_leaf, Bool.and_self, if_true, first, leafOf, Bool.not_true,
    Bool.and_false, Bool.or_false, Nat.sub_add_cancel positive]
  rfl

theorem advance_rejected (selected next sampled : Nat) (walking : tree.Walking selected tokens)
    (continued : continues tree tokens = true)
    (undrafted : tree.drafts (tokens ++ [sampled]) = false) :
    advance row tokens.length ⟨selected, tokens.length - 1, false, next⟩ sampled =
      ⟨selected, tokens.length - 1, true, sampled⟩ := by
  have child := hasChild_live reads ⟨selected, tokens.length - 1, false, next⟩ walking rfl
  rw [continued] at child
  have matched := anyLeaf_eq reads _ _ (fun leaf => childMatches_live reads selected sampled leaf walking)
  have no_leaf : row.anyLeaf (childMatches row tokens.length selected sampled) = false :=
    matched.trans undrafted
  simp [advance, child, no_leaf]

/-- A row whose tokens no path continues idles at every later position. -/
theorem hasChild_exhausted (state : Sampler) (walking : tree.Walking state.selectedLeaf tokens)
    (running : state.stopped = false) (ended : continues tree tokens = false) (position : Nat)
    (later : tokens.length ≤ position) : hasChild row position state = false := by
  rcases Nat.eq_or_lt_of_le later with rfl | past
  · rw [hasChild_live reads state walking running, ended]
  · exact hasChild_ended reads position state walking.inside
      (Nat.lt_of_le_of_lt (ended_of_not_continues _ walking ended) past)

/-- The drawn conditional belongs to the end of the accepted prefix. -/
theorem logitNode_spells {current : Nat} (wellFormed : tree.WellFormed current) (state : Sampler)
    (walking : tree.Walking state.selectedLeaf tokens) :
    ∃ nodes, tree.rootPath (logitNode row tokens.length state) = some nodes ∧
      tree.tokensAt nodes = tokens := by
  have first := firstLeaf_eq reads _ _ (fun leaf =>
    prefixMatches_live reads state.selectedLeaf leaf walking)
  have leaf : tree.Walking (row.firstLeaf (row.prefixMatches tokens.length state.selectedLeaf)) tokens := by
    rw [first]
    exact leafOf_walking (drafts_iff.mpr ⟨_, walking.inside, walking.spelled⟩) walking.started
  exact node_spells reads wellFormed _ leaf

end step

/-- A row's own part of a position. -/
def rowStep (vocabSize : Nat) (probabilities : Nat → Nat → ℚ) (row : PathRow) (position : Nat)
    (state : Sampler) : Law Sampler := do
  let sampled ← Law.multinomial vocabSize (probabilities (logitNode row position state))
  pure (advance row position state sampled)

/-- A row's own last draw and results. -/
def rowBonus (vocabSize : Nat) (probabilities : Nat → Nat → ℚ) (row : PathRow) (state : Sampler) :
    Law SampledRow := do
  let bonus ← Law.multinomial vocabSize (probabilities (bonusNode row state))
  pure (finish row state bonus)

/-- What the caller keeps of a row that emitted the given tokens, the current one
first. -/
def outcome (tree : Tree) (tokens : List Nat) : SampledRow where
  acceptLength := tokens.length - 2
  selectedNodes := ((tree.path (leafOf tree tokens.dropLast)).take (tokens.length - 1)).map Int.ofNat
  selectedTokens := tokens.dropLast.map Int.ofNat
  nextToken := tokens.getLastD 0

theorem outcome_emitted (tree : Tree) (first token : Nat) (rest : List Nat) :
    (outcome tree (first :: rest ++ [token])).emitted = rest ++ [token] := by
  have kept : (first :: rest ++ [token]).dropLast = first :: rest := List.dropLast_concat
  have accepted : (outcome tree (first :: rest ++ [token])).accepted.selectedTokens =
      (first :: rest).map Int.ofNat := by
    simp only [SampledRow.accepted, outcome, kept]
    exact List.take_of_length_le (by simp)
  have last : (outcome tree (first :: rest ++ [token])).nextToken = token := by
    simp only [outcome, List.getLastD_concat]
  rw [SampledRow.emitted, accepted, last]
  simp [Function.comp_def]

section walk

variable {row : PathRow} {tree : Tree} {vocabSize current : Nat} {probabilities : Nat → Nat → ℚ}
  {target : List Nat → Nat → ℚ}

theorem total_draw {weights : Nat → ℚ} (distribution : Distribution vocabSize weights) :
    (Law.multinomial vocabSize weights).Total :=
  Law.total_multinomial _ _ (by rw [distribution.normalised]; exact one_ne_zero)

theorem rowStep_total (distribution : ∀ node, Distribution vocabSize (probabilities node))
    (position : Nat) (state : Sampler) :
    (rowStep vocabSize probabilities row position state).Total :=
  Law.total_bind _ _ (total_draw (distribution _)) (fun _ _ => Law.total_pure _)

/-- A row without children in the positions to come keeps its state: its draws are
made and ignored. -/
theorem walk_idle (distribution : ∀ node, Distribution vocabSize (probabilities node))
    (state : Sampler) (value : Sampler → ℚ) (positions : List Nat)
    (childless : ∀ position ∈ positions, hasChild row position state = false) :
    (Law.sequential (rowStep vocabSize probabilities row) positions state).expect value =
      value state := by
  induction positions with
  | nil => exact Law.expect_pure _ _
  | cons position positions ih =>
    have rest := ih (fun other member =>
      childless other (List.mem_cons_of_mem _ member))
    have kept : ∀ sampled, advance row position state sampled = state :=
      fun sampled => advance_idle position state sampled (childless position List.mem_cons_self)
    rw [Law.sequential, Law.expect_bind, rowStep, Law.expect_map]
    simp only [kept, rest]
    rw [Law.expect_const, total_draw (distribution _), one_mul]

variable (reads : row.Reads tree)
include reads

theorem finish_accepted (tokens : List Nat) (drafted : tree.drafts tokens = true)
    (started : tokens ≠ []) (stopped : Bool) (next bonus : Nat) :
    (finish row ⟨leafOf tree tokens, tokens.length - 1, stopped, next⟩ bonus).accepted =
      outcome tree (tokens ++ [if stopped then next else bonus]) := by
  have walking := leafOf_walking drafted started
  have positive : 0 < tokens.length := List.length_pos_iff.mpr started
  have long := walking.spelled.length_le
  obtain ⟨padding, nodes⟩ := reads.retrieve _ walking.inside
  obtain ⟨blank, spelled⟩ := reads.tokens _ walking.inside
  have keptNodes : (row.retrieve.getD (leafOf tree tokens) []).take tokens.length =
      ((tree.path (leafOf tree tokens)).take tokens.length).map Int.ofNat := by
    rw [nodes, List.take_append_of_le_length (by simpa using long), List.map_take]
  have keptTokens : (row.pathTokens.getD (leafOf tree tokens) []).take tokens.length =
      tokens.map Int.ofNat := by
    rw [spelled, List.take_append_of_le_length (by simpa using long), ← List.map_take,
      ← List.prefix_iff_eq_take.mp walking.spelled]
  have shorter : tokens.length + 1 - 2 = tokens.length - 1 := by omega
  simp only [finish, SampledRow.accepted, outcome, Nat.sub_add_cancel positive, keptNodes,
    keptTokens, List.dropLast_concat, List.length_append, List.length_singleton,
    Nat.add_sub_cancel, shorter, List.getLastD_concat]

/-- A stopped row returns its own token, whatever is drawn at the end. -/
theorem bonus_stopped (distribution : ∀ node, Distribution vocabSize (probabilities node))
    (tokens : List Nat) (drafted : tree.drafts tokens = true) (started : tokens ≠ []) (token : Nat)
    (value : SampledRow → ℚ) :
    (rowBonus vocabSize probabilities row ⟨leafOf tree tokens, tokens.length - 1, true, token⟩).expect
      (fun sampled => value sampled.accepted) = value (outcome tree (tokens ++ [token])) := by
  rw [rowBonus, Law.expect_map]
  simp only [finish_accepted reads tokens drafted started, if_true]
  rw [Law.expect_const, total_draw (distribution _), one_mul]

variable (wellFormed : tree.WellFormed current)
  (distribution : ∀ node, Distribution vocabSize (probabilities node))
  (faithful : ∀ node nodes, tree.rootPath node = some nodes →
    probabilities node = target (tree.tokensAt nodes))
include wellFormed faithful

theorem bonusNode_conditional (tokens : List Nat) (drafted : tree.drafts tokens = true)
    (started : tokens ≠ []) (next : Nat) :
    probabilities (bonusNode row ⟨leafOf tree tokens, tokens.length - 1, false, next⟩) =
      target tokens := by
  obtain ⟨nodes, rooted, spelled⟩ :=
    node_spells reads wellFormed _ (leafOf_walking drafted started)
  rw [bonusNode, faithful _ nodes rooted, spelled]

/-- The draw of a position is from the target at the accepted tokens. -/
theorem logitNode_conditional (tokens : List Nat) (drafted : tree.drafts tokens = true)
    (started : tokens ≠ []) (next : Nat) :
    probabilities (logitNode row tokens.length
      ⟨leafOf tree tokens, tokens.length - 1, false, next⟩) = target tokens := by
  obtain ⟨nodes, rooted, spelled⟩ :=
    logitNode_spells reads wellFormed ⟨leafOf tree tokens, tokens.length - 1, false, next⟩
      (leafOf_walking drafted started)
  rw [faithful _ nodes rooted, spelled]

include distribution

theorem target_distribution (tokens : List Nat) (drafted : tree.drafts tokens = true)
    (started : tokens ≠ []) : Distribution vocabSize (target tokens) := by
  rw [← bonusNode_conditional reads wellFormed faithful tokens drafted started 0]
  exact distribution _

/-- A row that never stopped draws its last token from the target. -/
theorem bonus_running (tokens : List Nat) (drafted : tree.drafts tokens = true)
    (started : tokens ≠ []) (next : Nat) (value : SampledRow → ℚ) :
    (rowBonus vocabSize probabilities row ⟨leafOf tree tokens, tokens.length - 1, false, next⟩).expect
        (fun sampled => value sampled.accepted) =
      ∑ token ∈ Finset.range vocabSize,
        target tokens token * value (outcome tree (tokens ++ [token])) := by
  have conditional := bonusNode_conditional reads wellFormed faithful tokens drafted started next
  have targeted := target_distribution reads wellFormed distribution faithful tokens drafted started
  rw [rowBonus, Law.expect_map, conditional, Law.expect_multinomial, targeted.normalised, div_one]
  simp only [finish_accepted reads tokens drafted started, Bool.false_eq_true, if_false]

/-- A row whose tokens no path continues ends with a token of the target, however
many positions are still to come. -/
theorem walk_ended (tokens : List Nat) (drafted : tree.drafts tokens = true)
    (started : tokens ≠ []) (ended : continues tree tokens = false) (count next allowance : Nat)
    (value : SampledRow → ℚ) :
    (Law.sequential (rowStep vocabSize probabilities row) (List.range' tokens.length count)
        ⟨leafOf tree tokens, tokens.length - 1, false, next⟩).expect
        (fun state => (rowBonus vocabSize probabilities row state).expect
          (fun sampled => value sampled.accepted)) =
      (Law.ancestral vocabSize target tree.drafts allowance tokens).expect
        (fun emission => value (outcome tree emission)) := by
  have targeted := target_distribution reads wellFormed distribution faithful tokens drafted started
  have undrafted : ∀ token, tree.drafts (tokens ++ [token]) = false := by
    intro token
    by_contra found
    rw [continues_of_drafts token (by simpa using found)] at ended
    cases ended
  rw [walk_idle distribution _ _ _ (fun position member =>
      hasChild_exhausted reads ⟨leafOf tree tokens, tokens.length - 1, false, next⟩
        (leafOf_walking drafted started) rfl ended position (List.mem_range'_1.mp member).1),
    bonus_running reads wellFormed distribution faithful tokens drafted started]
  cases allowance with
  | zero =>
    rw [Law.ancestral, Law.expect_map, Law.expect_multinomial, targeted.normalised, div_one]
  | succ allowance =>
    rw [Law.expect_ancestral _ _ _ _ _ _ targeted.normalised]
    simp [undrafted]

/-- The positions to come followed by the last draw are ancestral sampling from
the target for as long as the tree drafts the tokens. The induction is on the
positions; the row either moves on, stops, or idles through the rest. -/
theorem walk_law (value : SampledRow → ℚ) (count : Nat) (tokens : List Nat)
    (drafted : tree.drafts tokens = true) (started : tokens ≠ []) (next : Nat)
    (enough : tree.retrieve.width ≤ tokens.length + count) :
    (Law.sequential (rowStep vocabSize probabilities row) (List.range' tokens.length count)
        ⟨leafOf tree tokens, tokens.length - 1, false, next⟩).expect
        (fun state => (rowBonus vocabSize probabilities row state).expect
          (fun sampled => value sampled.accepted)) =
      (Law.ancestral vocabSize target tree.drafts (tree.retrieve.width - tokens.length)
        tokens).expect (fun emission => value (outcome tree emission)) := by
  induction count generalizing tokens next with
  | zero =>
    refine walk_ended reads wellFormed distribution faithful tokens drafted started ?_ 0 next _ value
    exact continues_beyond wellFormed tokens enough
  | succ count ih =>
    cases continued : continues tree tokens with
    | false =>
      exact walk_ended reads wellFormed distribution faithful tokens drafted started continued _ next
        _ value
    | true =>
      have walking := leafOf_walking drafted started
      have targeted :=
        target_distribution reads wellFormed distribution faithful tokens drafted started
      have inside : tokens.length < tree.retrieve.width := by
        by_contra beyond
        rw [continues_beyond wellFormed tokens (Nat.le_of_not_lt beyond)] at continued
        cases continued
      have allowance : tree.retrieve.width - tokens.length =
          tree.retrieve.width - (tokens.length + 1) + 1 := by omega
      rw [List.range'_succ, Law.sequential, Law.expect_bind, rowStep,
        logitNode_conditional reads wellFormed faithful tokens drafted started, Law.expect_map,
        Law.expect_multinomial, targeted.normalised, div_one, allowance,
        Law.expect_ancestral _ _ _ _ _ _ targeted.normalised]
      refine Finset.sum_congr rfl (fun token _ => congrArg _ ?_)
      cases extended : tree.drafts (tokens ++ [token]) with
      | true =>
        have later := ih (tokens ++ [token]) extended (by simp) next (by
          rw [List.length_append, List.length_singleton]
          omega)
        rw [List.length_append, List.length_singleton, Nat.add_sub_cancel] at later
        rw [advance_drafted reads _ next token walking extended, if_pos rfl]
        exact later
      | false =>
        rw [advance_rejected reads _ next token walking continued extended,
          if_neg Bool.false_ne_true,
          walk_idle distribution _ _ _ (fun position _ => hasChild_stopped position _ rfl)]
        exact bonus_stopped reads distribution tokens drafted started token value

end walk

end SpecBlock.Eagle3
