import SpecBlock.Foundation.Rejection
import SpecBlock.Batch.Proposals

/-!
# The sampling walk of one request

A level offers a row's proposals one after the other. By sequential rejection the
row leaves the level with the law of one token drawn from the target: a drafted
token moves the row to a path that drafts it, any other token ends the row. The
levels together are ancestral sampling for as long as the tree drafts the tokens.

The one gap between the two is the guard of the divisor: a proposal of positive
probability must be tested while at least the smallest positive normal number of
mass is left.
-/

namespace SpecBlock.Batch

open Rejection

section offers

variable (offered : Nat → Bool) (probability : Nat → ℚ)

theorem offerPaths_chosen (paths : List Nat) (offers : Offers) (taken : offers.chosen = true) :
    offerPaths offered probability paths offers = pure offers := by
  induction paths with
  | nil => rfl
  | cons path paths ih =>
    rw [offerPaths, if_neg (by simp [taken])]
    exact ih

theorem offerPaths_filter (paths : List Nat) (offers : Offers) :
    offerPaths offered probability paths offers =
      offerPaths offered probability (paths.filter offered) offers := by
  induction paths generalizing offers with
  | nil => rfl
  | cons path paths ih =>
    cases proposed : offered path with
    | false =>
      rw [List.filter_cons_of_neg (by simp [proposed]), offerPaths, if_neg (by simp [proposed])]
      exact ih offers
    | true =>
      rw [List.filter_cons_of_pos proposed, offerPaths, offerPaths]
      simp only [ih]

theorem offerPaths_total (paths : List Nat) (offers : Offers) :
    (offerPaths offered probability paths offers).Total := by
  induction paths generalizing offers with
  | nil => exact Law.total_pure offers
  | cons path paths ih =>
    rw [offerPaths]
    split
    · exact Law.total_bind _ _ (Law.total_uniformLe _) (fun take _ => ih _)
    · exact ih offers

theorem offerPaths_taken (paths : List Nat) (offers final : Offers)
    (open_row : offers.chosen = false)
    (member : final ∈ (offerPaths offered probability paths offers).outcomes)
    (taken : final.chosen = true) :
    final.chosenPath ∈ paths ∧ offered final.chosenPath = true := by
  induction paths generalizing offers with
  | nil =>
    rw [offerPaths, Law.mem_outcomes_pure] at member
    simp [member, open_row] at taken
  | cons path paths ih =>
    have later : ∀ next : Offers, next.chosen = false →
        final ∈ (offerPaths offered probability paths next).outcomes →
        final.chosenPath ∈ path :: paths ∧ offered final.chosenPath = true := by
      intro next stillOpen reached
      obtain ⟨listed, proposed⟩ := ih next stillOpen reached
      exact ⟨List.mem_cons_of_mem _ listed, proposed⟩
    rw [offerPaths] at member
    split at member
    · next proposed =>
      obtain ⟨take, -, reached⟩ := (Law.mem_outcomes_bind _ _ _).mp member
      cases take with
      | false =>
        rw [if_neg (by decide)] at reached
        exact later _ (by simpa using open_row) reached
      | true =>
        rw [if_pos rfl, offerPaths_chosen _ _ _ _ rfl, Law.mem_outcomes_pure] at reached
        rw [reached]
        exact ⟨List.mem_cons_self, (Bool.and_eq_true_iff.mp proposed).1⟩
    · exact later offers open_row member

end offers

theorem residual_eq_left (vocabSize : Nat) (weights : Nat → ℚ) (rejected : List Nat)
    (positive : 0 < leftMass weights vocabSize rejected) :
    residual vocabSize weights rejected = left weights rejected := by
  unfold residual
  exact if_pos positive

section average

variable (vocabSize : Nat) (weights : Nat → ℚ) (nonnegative : ∀ token, 0 ≤ weights token)
  (offered : Nat → Bool) (token : Nat → Nat) (best : Nat) (accepted missed value : Nat → ℚ)
include nonnegative

/-- What a level is worth to a row: the value of the taken path, or the average
over the token a failed row samples. -/
def settled (vocabSize : Nat) (weights : Nat → ℚ) (token : Nat → Nat)
    (accepted missed : Nat → ℚ) (offers : Offers) : ℚ :=
  if offers.chosen then accepted offers.chosenPath
  else (Law.multinomial vocabSize
    (residual vocabSize weights (offers.rejected.map token))).expect missed

/-- Offering distinct proposals and then sampling what is left averages like one
draw from the left weights. The induction is on the proposals still to come; the
rejected ones carry the left weight along. -/
theorem offerPaths_average (paths rejected : List Nat)
    (proposals : ∀ path ∈ paths, offered path = true)
    (inside : ∀ path ∈ paths, token path < vocabSize)
    (distinct : (paths.map token).Nodup)
    (fresh : ∀ path ∈ paths, token path ∉ rejected.map token)
    (positive : 0 < leftMass weights vocabSize (rejected.map token))
    (resolved : Resolved weights float32Tiny (leftMass weights vocabSize (rejected.map token))
      (paths.map token))
    (taken : ∀ path ∈ paths, value (token path) = accepted path)
    (others : ∀ other < vocabSize, other ∉ paths.map token → other ∉ rejected.map token →
      value other = missed other) :
    leftMass weights vocabSize (rejected.map token) *
        (offerPaths offered (fun path => weights (token path)) paths
          ⟨false, best, leftMass weights vocabSize (rejected.map token), rejected⟩).expect
          (settled vocabSize weights token accepted missed) =
      leftSum weights vocabSize (rejected.map token) value := by
  induction paths generalizing rejected with
  | nil =>
    rw [offerPaths, Law.expect_pure, settled, if_neg (by simp),
      residual_eq_left vocabSize weights _ positive,
      Law.expect_multinomial]
    rw [← leftMass, ← leftSum, mul_comm, div_mul_cancel₀ _ positive.ne']
    refine Finset.sum_congr rfl (fun other member => ?_)
    by_cases gone : other ∈ rejected.map token
    · simp [left, gone]
    · rw [others other (Finset.mem_range.mp member) (by simp) gone]
  | cons path paths ih =>
    obtain ⟨absent, distinctRest⟩ := List.nodup_cons.mp distinct
    have bound := inside path List.mem_cons_self
    have unseen := fresh path List.mem_cons_self
    have grown : (rejected ++ [path]).map token = rejected.map token ++ [token path] := by simp
    have shrunk := @leftMass_append weights vocabSize (rejected.map token) (token path) bound unseen
    have rest := leftMass_nonneg nonnegative vocabSize (rejected.map token ++ [token path])
    obtain ⟨tested, resolvedRest⟩ := resolved
    rw [← shrunk, ← grown] at resolvedRest
    rw [offerPaths, if_pos (by simp [proposals path List.mem_cons_self]), Law.expect_bind]
    -- Taking the path settles the row; otherwise the rest of the proposals follow.
    have branches : ∀ take : Bool, (offerPaths offered (fun path => weights (token path)) paths
        (if take then ⟨true, path, leftMass weights vocabSize (rejected.map token), rejected⟩
        else ⟨false, best, max (leftMass weights vocabSize (rejected.map token) -
          weights (token path)) 0, rejected ++ [path]⟩)).expect
          (settled vocabSize weights token accepted missed) =
        if take then value (token path) else
          (offerPaths offered (fun path => weights (token path)) paths
            ⟨false, best, leftMass weights vocabSize ((rejected ++ [path]).map token),
              rejected ++ [path]⟩).expect (settled vocabSize weights token accepted missed) := by
      intro take
      cases take with
      | true =>
        rw [if_pos rfl, if_pos rfl, offerPaths_chosen _ _ _ _ rfl, Law.expect_pure, settled,
          if_pos rfl, taken path List.mem_cons_self]
      | false =>
        rw [if_neg (by decide), if_neg (by decide), grown, shrunk, max_eq_left (shrunk ▸ rest)]
    rw [Law.expect_congr _ _ _ (fun take _ => branches take)]
    refine test_average nonnegative vocabSize _ (token path) value float32Tiny _ bound unseen
      positive tested (fun some_left => ?_)
    rw [← grown] at some_left ⊢
    refine ih (rejected ++ [path])
      (fun other member => proposals other (List.mem_cons_of_mem _ member))
      (fun other member => inside other (List.mem_cons_of_mem _ member)) distinctRest ?_ some_left
      resolvedRest (fun other member => taken other (List.mem_cons_of_mem _ member)) ?_
    · intro other member
      rw [grown, List.mem_append, List.mem_singleton, not_or]
      exact ⟨fresh other (List.mem_cons_of_mem _ member),
        fun same => absent (same ▸ List.mem_map_of_mem member)⟩
    · intro other below notLater notRejected
      rw [grown, List.mem_append, List.mem_singleton, not_or] at notRejected
      refine others other below ?_ notRejected.1
      rw [List.map_cons, List.mem_cons, not_or]
      exact ⟨notRejected.2, notLater⟩

end average

/-- A target distribution over the vocabulary. -/
structure Distribution (vocabSize : Nat) (weights : Nat → ℚ) : Prop where
  nonnegative : ∀ token, 0 ≤ weights token
  normalised : ∑ token ∈ Finset.range vocabSize, weights token = 1

theorem Distribution.leftMass_nil {vocabSize : Nat} {weights : Nat → ℚ}
    (distribution : Distribution vocabSize weights) : leftMass weights vocabSize [] = 1 := by
  simpa [leftMass, left] using distribution.normalised

theorem Distribution.residual_mass {vocabSize : Nat} {weights : Nat → ℚ}
    (distribution : Distribution vocabSize weights) (rejected : List Nat) :
    ∑ token ∈ Finset.range vocabSize, residual vocabSize weights rejected token ≠ 0 := by
  unfold residual
  split
  · next positive => exact positive.ne'
  · rw [distribution.normalised]
    exact one_ne_zero

/-- The guard is out of play when every positive probability is a normal number. -/
theorem Distribution.resolved {vocabSize : Nat} {weights : Nat → ℚ}
    (distribution : Distribution vocabSize weights)
    (normal : ∀ token, 0 < weights token → float32Tiny ≤ weights token) (tree : Tree)
    (tokens : List Nat) :
    Resolved weights float32Tiny 1 (tree.childTokens vocabSize tokens) := by
  rw [← distribution.leftMass_nil]
  exact resolved_of_normal distribution.nonnegative float32Tiny vocabSize []
    (tree.childTokens vocabSize tokens) normal
    (fun token member => ((Tree.mem_childTokens vocabSize token tokens).mp member).1)
    (tree.childTokens_nodup vocabSize tokens) (fun _ _ => List.not_mem_nil)

theorem rowLevel_total (vocabSize maxPaths depth : Nat) (weights : Nat → ℚ) (staged : StagedRow)
    (state : SampleState) (distribution : Distribution vocabSize weights) :
    (rowLevel vocabSize maxPaths weights staged depth state).Total := by
  refine Law.total_bind _ _ (offerPaths_total _ _ _ _) (fun offers _ => ?_)
  split
  · exact Law.total_pure _
  · refine Law.total_bind _ _ (Law.total_multinomial _ _ (distribution.residual_mass _)) ?_
    exact fun _ _ => Law.total_pure _

section level

variable {staged : StagedRow} {tree : Tree} {best current : Nat} {tokens : List Nat}
  {vocabSize maxPaths : Nat} {weights : Nat → ℚ}
  (reads : staged.Reads tree) (walking : tree.Walking best tokens)
  (wellFormed : tree.WellFormed current) (covered : tree.retrieve.rows.length ≤ maxPaths)
include reads walking wellFormed

/-- A proposed row drafts the accepted tokens and its own proposal. -/
theorem proposal_walks (path : Nat)
    (proposed : proposal vocabSize staged tokens.length best path = true) :
    ∃ token, safeToken vocabSize staged tokens.length best path = token ∧
      tree.Walking path (tokens ++ [token]) := by
  have first := proposed
  rw [proposal_eq reads walking wellFormed, Rows.offersFirst, Bool.and_eq_true] at first
  obtain ⟨token, offered⟩ := Option.isSome_iff_exists.mp first.1
  refine ⟨token, safeToken_eq reads walking vocabSize path token offered proposed, ?_, by simp,
    ((Tree.offer_eq_some vocabSize path token tokens).mp offered).1⟩
  by_contra outside
  rw [Tree.offer_outside vocabSize path tokens walking.started (Nat.le_of_not_lt outside)] at offered
  simp at offered

include covered

/-- A level of a walking row draws one token from the target: a drafted token
moves the row, another one ends it. -/
theorem rowLevel_average (distribution : Distribution vocabSize weights)
    (resolved : Resolved weights float32Tiny 1 (tree.childTokens vocabSize tokens))
    (result : SampleState → ℚ) (value : Nat → ℚ)
    (moves : ∀ path token, tree.Walking path (tokens ++ [token]) → token < vocabSize →
      value token = result ⟨tokens.length + 1, path, none⟩)
    (ends : ∀ token < vocabSize, tree.drafts (tokens ++ [token]) = false →
      value token = result ⟨tokens.length, best, some token⟩) :
    (rowLevel vocabSize maxPaths weights staged tokens.length ⟨tokens.length, best, none⟩).expect
        result =
      ∑ token ∈ Finset.range vocabSize, weights token * value token := by
  have listed := proposals_tokens reads walking wellFormed vocabSize maxPaths covered
  have bounded : ∀ path, proposal vocabSize staged tokens.length best path = true →
      safeToken vocabSize staged tokens.length best path < vocabSize := by
    intro path proposed
    have genuine : 0 ≤ siblingToken staged tokens.length path ∧
        siblingToken staged tokens.length path < vocabSize := by
      simp only [proposal, Bool.and_eq_true, decide_eq_true_eq] at proposed
      exact proposed.1.2
    rw [safeToken, if_pos proposed]
    omega
  have average := offerPaths_average vocabSize weights distribution.nonnegative
    (proposal vocabSize staged tokens.length best) (safeToken vocabSize staged tokens.length best)
    best (fun path => result ⟨tokens.length + 1, path, none⟩)
    (fun token => result ⟨tokens.length, best, some token⟩) value
    ((List.range maxPaths).filter (proposal vocabSize staged tokens.length best)) []
    (fun path member => (List.mem_filter.mp member).2)
    (fun path member => bounded path (List.mem_filter.mp member).2)
    (by rw [listed]; exact tree.childTokens_nodup vocabSize tokens)
    (by simp) (by simp [distribution.leftMass_nil])
    (by rw [listed, List.map_nil, distribution.leftMass_nil]; exact resolved)
    (fun path member => by
      have proposed := (List.mem_filter.mp member).2
      obtain ⟨token, same, walks⟩ := proposal_walks reads walking wellFormed path proposed
      rw [same]
      exact moves path token walks (same ▸ bounded path proposed))
    (fun token below undrafted _ => by
      rw [listed, Tree.mem_childTokens] at undrafted
      exact ends token below (by simpa [below] using undrafted))
  rw [List.map_nil, distribution.leftMass_nil, one_mul] at average
  have whole : leftSum weights vocabSize [] value =
      ∑ token ∈ Finset.range vocabSize, weights token * value token := by
    simp [leftSum, left]
  rw [← whole, ← average, rowLevel]
  simp only [Law.expect_bind]
  rw [offerPaths_filter]
  apply Law.expect_congr
  intro offers _
  unfold settled
  split <;> simp

end level

/-- A row's own part of a level. -/
def rowStep (vocabSize maxPaths : Nat) (probabilities : Nat → Nat → ℚ) (staged : StagedRow)
    (depth : Nat) (state : SampleState) : Law SampleState :=
  if eligible staged depth state then
    rowLevel vocabSize maxPaths
      (probabilities (currentNode staged depth state.bestCandidate maxPaths)) staged depth state
  else pure state

/-- Tokens a final state stands for, the current token first. -/
def Tree.emission (tree : Tree) (state : SampleState) : List Nat :=
  (tree.spelling state.bestCandidate).take state.acceptedWidth ++ [state.nextToken.getD 0]

theorem rowStep_total (vocabSize maxPaths depth : Nat) (probabilities : Nat → Nat → ℚ)
    (staged : StagedRow) (state : SampleState)
    (distribution : ∀ node, Distribution vocabSize (probabilities node)) :
    (rowStep vocabSize maxPaths probabilities staged depth state).Total := by
  unfold rowStep
  split
  · exact rowLevel_total vocabSize maxPaths depth _ staged state (distribution _)
  · exact Law.total_pure state

theorem finishRow_total (vocabSize : Nat) (probabilities : Nat → Nat → ℚ) (staged : StagedRow)
    (state : SampleState) (distribution : ∀ node, Distribution vocabSize (probabilities node)) :
    (finishRow vocabSize probabilities staged state).Total := by
  unfold finishRow
  split
  · exact Law.total_pure state
  · refine Law.total_bind _ _ (Law.total_multinomial _ _ ?_) (fun _ _ => Law.total_pure _)
    rw [(distribution _).normalised]
    exact one_ne_zero

theorem sequential_idle (vocabSize maxPaths : Nat) (probabilities : Nat → Nat → ℚ)
    (staged : StagedRow) (depths : List Nat) (state : SampleState)
    (idle : ∀ depth ∈ depths, eligible staged depth state = false) :
    Law.sequential (rowStep vocabSize maxPaths probabilities staged) depths state = pure state := by
  induction depths with
  | nil => rfl
  | cons depth depths ih =>
    have rest := ih (fun other member => idle other (List.mem_cons_of_mem _ member))
    rw [Law.sequential, rowStep, if_neg (by simp [idle depth List.mem_cons_self]), Law.pure_bind, rest]

/-- A row whose last token is drawn stands for the accepted tokens and that one. -/
theorem walk_terminal (vocabSize maxPaths : Nat) (probabilities : Nat → Nat → ℚ)
    (staged : StagedRow) (tree : Tree) (value : List Nat → ℚ) (depths : List Nat)
    (best token : Nat) (tokens : List Nat) (walking : tree.Walking best tokens) :
    (Law.sequential (rowStep vocabSize maxPaths probabilities staged) depths
        ⟨tokens.length, best, some token⟩).expect
        (fun state => (finishRow vocabSize probabilities staged state).expect
          (fun final => value (tree.emission final))) = value (tokens ++ [token]) := by
  have spelled : (tree.spelling best).take tokens.length = tokens :=
    (List.prefix_iff_eq_take.mp walking.spelled).symm
  rw [sequential_idle _ _ _ _ _ _ (fun depth _ => by simp [eligible]), Law.expect_pure, finishRow,
    Law.expect_pure]
  simp [Tree.emission, spelled]

section walk

variable {staged : StagedRow} {tree : Tree} {current : Nat} {vocabSize maxPaths : Nat}
  {probabilities : Nat → Nat → ℚ} {target : List Nat → Nat → ℚ}
  (reads : staged.Reads tree) (wellFormed : tree.WellFormed current)
  (covered : tree.retrieve.rows.length ≤ maxPaths)
  (distribution : ∀ node, Distribution vocabSize (probabilities node))
  (faithful : ∀ node nodes, tree.rootPath node = some nodes →
    probabilities node = target (tree.tokensAt nodes))
include reads wellFormed distribution faithful

/-- A walking row that no level finished draws its last token from the target. -/
theorem finishRow_average (best : Nat) (tokens : List Nat) (walking : tree.Walking best tokens)
    (value : List Nat → ℚ) :
    (finishRow vocabSize probabilities staged ⟨tokens.length, best, none⟩).expect
        (fun final => value (tree.emission final)) =
      ∑ token ∈ Finset.range vocabSize, target tokens token * value (tokens ++ [token]) := by
  have positive : 0 < tokens.length := List.length_pos_iff.mpr walking.started
  have onPath : tokens.length - 1 < (tree.path best).length := by
    have bound := walking.spelled.length_le
    rw [Tree.spelling_length] at bound
    omega
  have spelled : (tree.spelling best).take tokens.length = tokens :=
    (List.prefix_iff_eq_take.mp walking.spelled).symm
  obtain ⟨padding, nodes⟩ := reads.retrieve best walking.inside
  have node : ((staged.retrieve.getD best []).getD (tokens.length - 1) (-1)).toNat =
      (tree.path best)[tokens.length - 1] := by
    rw [nodes, getD_padded, List.getElem?_eq_getElem onPath]
    rfl
  have conditional := faithful _ _
    (wellFormed.rootPath_path best _ _ (List.getElem?_eq_getElem onPath))
  rw [Nat.sub_add_cancel positive, Tree.tokensAt, List.map_take, ← Tree.tokensAt, ← Tree.spelling,
    spelled] at conditional
  have normalised := (distribution (tree.path best)[tokens.length - 1]).normalised
  simp only [finishRow, node]
  rw [Law.expect_map, Law.expect_multinomial, normalised, div_one, conditional]
  simp [Tree.emission, spelled]

theorem walking_distribution (best : Nat) (tokens : List Nat) (walking : tree.Walking best tokens) :
    Distribution vocabSize (target tokens) := by
  obtain ⟨nodes, rooted, spelled⟩ := currentNode_spells reads walking wellFormed
    tree.retrieve.rows.length (Nat.le_refl _)
  rw [← spelled, ← faithful _ nodes rooted]
  exact distribution _

theorem walk_ended (value : List Nat → ℚ) (count best : Nat) (tokens : List Nat)
    (walking : tree.Walking best tokens) (ended : tree.retrieve.width ≤ tokens.length) :
    (Law.sequential (rowStep vocabSize maxPaths probabilities staged)
        (List.range' tokens.length count) ⟨tokens.length, best, none⟩).expect
        (fun state => (finishRow vocabSize probabilities staged state).expect
          (fun final => value (tree.emission final))) =
      (Law.ancestral vocabSize target tree.drafts (tree.retrieve.width - tokens.length)
        tokens).expect value := by
  have targeted := walking_distribution reads wellFormed distribution faithful best tokens walking
  have idle : ∀ depth ∈ List.range' tokens.length count,
      eligible staged depth ⟨tokens.length, best, none⟩ = false := by
    intro depth member
    have later := (List.mem_range'_1.mp member).1
    simp only [eligible, reads.width, Bool.and_eq_false_iff, decide_eq_false_iff_not]
    exact .inr (by omega)
  rw [sequential_idle _ _ _ _ _ _ idle, Law.expect_pure,
    finishRow_average reads wellFormed distribution faithful best tokens walking,
    Nat.sub_eq_zero_of_le ended, Law.ancestral, Law.expect_map, Law.expect_multinomial,
    targeted.normalised, div_one]

include covered

/-- The levels of a walking row followed by its last draw are ancestral sampling
for as long as the tree drafts the tokens. The induction is on the levels to
come. -/
theorem walk_law
    (resolved : ∀ tokens, tokens ≠ [] → tree.drafts tokens = true →
      Resolved (target tokens) float32Tiny 1 (tree.childTokens vocabSize tokens))
    (value : List Nat → ℚ) (count best : Nat) (tokens : List Nat)
    (walking : tree.Walking best tokens) (enough : tree.retrieve.width ≤ tokens.length + count) :
    (Law.sequential (rowStep vocabSize maxPaths probabilities staged)
        (List.range' tokens.length count) ⟨tokens.length, best, none⟩).expect
        (fun state => (finishRow vocabSize probabilities staged state).expect
          (fun final => value (tree.emission final))) =
      (Law.ancestral vocabSize target tree.drafts (tree.retrieve.width - tokens.length)
        tokens).expect value := by
  induction count generalizing best tokens with
  | zero =>
    exact walk_ended reads wellFormed distribution faithful value 0 best tokens walking enough
  | succ count ih =>
    by_cases ended : tree.retrieve.width ≤ tokens.length
    · exact walk_ended reads wellFormed distribution faithful value _ best tokens walking ended
    have targeted := walking_distribution reads wellFormed distribution faithful best tokens walking
    have takesPart : eligible staged tokens.length ⟨tokens.length, best, none⟩ = true := by
      simp [eligible, reads.width, Nat.lt_of_not_le ended]
    have conditional : probabilities (currentNode staged tokens.length best maxPaths) =
        target tokens := by
      obtain ⟨nodes, rooted, spelled⟩ :=
        currentNode_spells reads walking wellFormed maxPaths covered
      rw [faithful _ nodes rooted, spelled]
    have drafted : tree.drafts tokens = true := by
      simp only [Tree.drafts, List.any_eq_true, decide_eq_true_eq]
      exact ⟨best, List.mem_range.mpr walking.inside, walking.spelled⟩
    have allowance : tree.retrieve.width - tokens.length =
        tree.retrieve.width - (tokens.length + 1) + 1 := by omega
    rw [List.range'_succ, Law.sequential, Law.expect_bind, rowStep, if_pos takesPart, conditional,
      allowance, Law.expect_ancestral _ _ _ _ _ _ targeted.normalised]
    refine rowLevel_average reads walking wellFormed covered targeted
      (resolved tokens walking.started drafted) _ _ ?_ ?_
    · intro path token walks below
      have extended : tree.drafts (tokens ++ [token]) = true := by
        simp only [Tree.drafts, List.any_eq_true, decide_eq_true_eq]
        exact ⟨path, List.mem_range.mpr walks.inside, walks.spelled⟩
      have later := ih path (tokens ++ [token]) walks (by
        rw [List.length_append, List.length_singleton]
        omega)
      rw [List.length_append, List.length_singleton] at later
      rw [if_pos extended, later]
    · intro token _ undrafted
      rw [if_neg (by simp [undrafted])]
      exact (walk_terminal _ _ _ _ tree value _ best token tokens walking).symm

end walk

end SpecBlock.Batch
