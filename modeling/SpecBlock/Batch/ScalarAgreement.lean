import SpecBlock.Batch.ScalarSampling
import SpecBlock.Batch.SamplingLaw
import SpecBlock.Single.SampledLaw

/-!
# Batched sampling is scalar sampling row by row

On the same uniform numbers a row of `_accept_sampling_batch` and a separate call of
`_accept_single_sampling` make the same trials in the same order: the proposals of a padded level are
the choices the scalar loop collects, and both keep the first matching row as their candidate. What a
row reads of the compacted probabilities is its own, so the other rows of the batch do not matter.

The walks are related level by level. A row that the batch has ended carries the weights the scalar
loop returns after its break; a row that still walks agrees on the accepted tokens.

The divisors differ below the smallest normal number, where only the batched rule clamps. The trials
agree as long as a proposal of positive probability is tested while at least that number is left.
-/

namespace SpecBlock.Batch

open Rejection

variable {H : Type}

section choices

variable (tokenAt : Nat → Int) (agrees : Nat → Bool) (offer : Nat → Option Nat)

/-- The choices of the matching rows are the rows that offer a token first. The induction is on the
rows still to come; the tokens seen are those of the earlier rows. -/
theorem collectChoices_eq
    (reads : ∀ row, offer row =
      if agrees row = true ∧ 0 ≤ tokenAt row then some (tokenAt row).toNat else none)
    (count start : Nat) (seenTokens : List Int)
    (seen : ∀ token : Nat, (token : Int) ∈ seenTokens ↔ token ∈ (List.range start).filterMap offer) :
    collectChoices tokenAt ((List.range' start count).filter agrees) seenTokens =
      ((List.range' start count).filter (Rows.offersFirst offer)).map
        (fun row => (row, (tokenAt row).toNat)) := by
  induction count generalizing start seenTokens with
  | zero => rfl
  | succ count ih =>
    have own := reads start
    have grown : (List.range (start + 1)).filterMap offer =
        (List.range start).filterMap offer ++ (offer start).toList := by
      rw [List.range_succ, List.filterMap_append]
      cases read : offer start <;> simp [read]
    rw [List.range'_succ]
    cases matched : agrees start with
    | false =>
      rw [if_neg (by simp [matched])] at own
      rw [List.filter_cons_of_neg (by simp [matched]),
        List.filter_cons_of_neg (by simp [Rows.offersFirst, own])]
      refine ih (start + 1) seenTokens fun token => ?_
      rw [seen, grown, own]
      simp
    | true =>
      rw [List.filter_cons_of_pos matched, collectChoices]
      by_cases genuine : 0 ≤ tokenAt start
      · rw [if_pos ⟨matched, genuine⟩] at own
        have spelled : ((tokenAt start).toNat : Int) = tokenAt start := Int.toNat_of_nonneg genuine
        have first := Rows.offersFirst_eq offer start _ own
        have known := seen (tokenAt start).toNat
        rw [spelled] at known
        by_cases before : tokenAt start ∈ seenTokens
        · rw [if_pos (Or.inr before), List.filter_cons_of_neg (by
            rw [first]
            simpa using known.mp before)]
          refine ih (start + 1) seenTokens fun token => ?_
          rw [seen, grown, own, List.mem_append]
          refine ⟨Or.inl, fun either => either.elim id fun same => ?_⟩
          obtain rfl : token = (tokenAt start).toNat := by simpa using same
          exact known.mp before
        · rw [if_neg (by rintro (negative | member); exacts [absurd genuine (by omega), before member]),
            List.filter_cons_of_pos (by
              rw [first]
              exact decide_eq_true (fun member => before (known.mpr member))), List.map_cons]
          refine congrArg _ (ih (start + 1) _ fun token => ?_)
          rw [List.mem_cons, seen, grown, own, List.mem_append]
          simp only [Option.toList_some, List.mem_singleton]
          rw [← spelled, Int.ofNat_inj, spelled]
          exact or_comm
      · rw [if_neg (fun both => genuine both.2)] at own
        rw [if_pos (Or.inl (by omega)), List.filter_cons_of_neg (by simp [Rows.offersFirst, own])]
        refine ih (start + 1) seenTokens fun token => ?_
        rw [seen, grown, own]
        simp

end choices

section trials

variable (offered : Nat → Bool) (weights uniforms : Nat → ℚ) (token : Nat → Nat)

theorem takePaths_chosen (probability : Nat → ℚ) (paths : List Nat) (offers : Offers)
    (taken : offers.chosen = true) :
    takePaths offered probability uniforms paths offers = offers := by
  induction paths with
  | nil => rfl
  | cons path paths ih =>
    rw [takePaths, if_neg (by simp [taken])]
    exact ih

theorem takePaths_filter (probability : Nat → ℚ) (paths : List Nat) (offers : Offers) :
    takePaths offered probability uniforms paths offers =
      takePaths offered probability uniforms (paths.filter offered) offers := by
  induction paths generalizing offers with
  | nil => rfl
  | cons path paths ih =>
    cases proposed : offered path with
    | false =>
      rw [List.filter_cons_of_neg (by simp [proposed]), takePaths, if_neg (by simp [proposed])]
      exact ih offers
    | true =>
      rw [List.filter_cons_of_pos proposed, takePaths, takePaths]
      simp only [ih]

/-- The trials of a level end alike: both took the same path, or both rejected the same tokens. -/
inductive TrialsAgree (vocabSize : Nat) (best : Nat) : Offers → Trials → Prop
  | taken (path : Nat) (proposed : offered path = true) (remaining : ℚ) (rejected : List Nat)
      (rejectedTokens : List Nat) (remainingProbability : ℚ) (adjusted : Bool) :
      TrialsAgree vocabSize best ⟨true, path, remaining, rejected⟩
        ⟨some (path, token path), remainingProbability, rejectedTokens, adjusted⟩
  | missed (rejected : List Nat) :
      TrialsAgree vocabSize best
        ⟨false, best, leftMass weights vocabSize (rejected.map token), rejected⟩
        ⟨none, leftMass weights vocabSize (rejected.map token), rejected.map token,
          !rejected.isEmpty⟩

/-- Offering distinct proposals is trying them as choices: the rejected tokens carry what is left, and
the clamped divisor is what is left whenever it matters. -/
theorem takePaths_agree (nonnegative : ∀ token, 0 ≤ weights token) (vocabSize best : Nat)
    (paths rejected : List Nat) (proposals : ∀ path ∈ paths, offered path = true)
    (inside : ∀ path ∈ paths, token path < vocabSize) (distinct : (paths.map token).Nodup)
    (fresh : ∀ path ∈ paths, token path ∉ rejected.map token)
    (resolved : Resolved weights float32Tiny (leftMass weights vocabSize (rejected.map token))
      (paths.map token)) :
    TrialsAgree offered weights token vocabSize best
      (takePaths offered (fun path => weights (token path)) uniforms paths
        ⟨false, best, leftMass weights vocabSize (rejected.map token), rejected⟩)
      (tryChoices weights uniforms (paths.map (fun path => (path, token path)))
        ⟨none, leftMass weights vocabSize (rejected.map token), rejected.map token,
          !rejected.isEmpty⟩) := by
  induction paths generalizing rejected with
  | nil => exact .missed rejected
  | cons path paths ih =>
    obtain ⟨absent, distinctRest⟩ := List.nodup_cons.mp distinct
    have bound := inside path List.mem_cons_self
    have unseen := fresh path List.mem_cons_self
    have grown : (rejected ++ [path]).map token = rejected.map token ++ [token path] := by simp
    have shrunk := @leftMass_append weights vocabSize (rejected.map token) (token path) bound unseen
    have rest := leftMass_nonneg nonnegative vocabSize (rejected.map token ++ [token path])
    have share := le_leftMass nonnegative vocabSize (rejected.map token) (token path) bound unseen
    obtain ⟨tested, resolvedRest⟩ := resolved
    rw [← shrunk, ← grown] at resolvedRest
    have divisor : weights (token path) /
          max (leftMass weights vocabSize (rejected.map token)) float32Tiny =
        if 0 < leftMass weights vocabSize (rejected.map token) then
          weights (token path) / leftMass weights vocabSize (rejected.map token) else 0 := by
      rcases (nonnegative (token path)).eq_or_lt with zero | some_weight
      · simp [← zero]
      · rw [max_eq_left (tested some_weight), if_pos (some_weight.trans_le share)]
    rw [takePaths, if_pos (by simp [proposals path List.mem_cons_self]), List.map_cons, tryChoices]
    dsimp only
    rw [divisor]
    generalize (if 0 < leftMass weights vocabSize (rejected.map token) then
      weights (token path) / leftMass weights vocabSize (rejected.map token) else 0) = conditional
    split
    · rw [takePaths_chosen _ _ _ _ _ rfl]
      exact .taken path (proposals path List.mem_cons_self) _ _ _ _ _
    · have later := ih (rejected ++ [path])
        (fun other member => proposals other (List.mem_cons_of_mem _ member))
        (fun other member => inside other (List.mem_cons_of_mem _ member)) distinctRest
        (fun other member => by
          rw [grown, List.mem_append, List.mem_singleton, not_or]
          exact ⟨fresh other (List.mem_cons_of_mem _ member),
            fun same => absent (same ▸ List.mem_map_of_mem member)⟩) resolvedRest
      have tried : (!(rejected ++ [path]).isEmpty) = true := by
        cases rejected <;> rfl
      rw [grown, shrunk, tried] at later
      rw [max_eq_left (shrunk ▸ rest), max_eq_right (shrunk ▸ rest)]
      exact later

end trials

section rows

variable {tree : Tree} {current best : Nat} {tokens : List Nat} {vocabSize : Nat}
  {staged : StagedRow}

/-- The node at which a row has accepted the tokens. -/
def reached (tree : Tree) (best : Nat) (tokens : List Nat) : Nat :=
  (tree.path best).getD (tokens.length - 1) 0

theorem reached_onPath (atRow : Single.AtRow tree tokens best) :
    tokens.length - 1 < (tree.path best).length := by
  have bound := atRow.walking.spelled.length_le
  have positive : 0 < tokens.length := List.length_pos_iff.mpr atRow.walking.started
  rw [Tree.spelling_length] at bound
  omega

theorem reached_padded (atRow : Single.AtRow tree tokens best) (padding : Nat) :
    ((tree.path best).map Int.ofNat ++ List.replicate padding (-1)).getD (tokens.length - 1) (-1) =
      (reached tree best tokens : Int) := by
  rw [getD_padded, List.getElem?_eq_getElem (reached_onPath atRow), reached,
    List.getD_eq_getElem?_getD, List.getElem?_eq_getElem (reached_onPath atRow)]
  rfl

/-- A row that offers its token first is the first row that spells it. -/
theorem offersFirst_atRow (path token : Nat) (started : tokens ≠ [])
    (offered : tree.offer vocabSize tokens path = some token)
    (first : Rows.offersFirst (tree.offer vocabSize tokens) path = true) :
    Single.AtRow tree (tokens ++ [token]) path := by
  obtain ⟨spelled, bounded⟩ := (Tree.offer_eq_some vocabSize path token tokens).mp offered
  refine ⟨⟨?_, by simp, spelled⟩, fun earlier before again => ?_⟩
  · by_contra outside
    rw [Tree.offer_outside vocabSize path tokens started (Nat.le_of_not_lt outside)] at offered
    simp at offered
  · rw [Rows.offersFirst_eq _ path token offered, decide_eq_true_eq] at first
    exact first (List.mem_filterMap.mpr ⟨earlier, List.mem_range.mpr before,
      (Tree.offer_eq_some vocabSize earlier token tokens).mpr ⟨again, bounded⟩⟩)

theorem firstMatch_eq (atRow : Single.AtRow tree tokens best) (size : Nat)
    (covered : tree.retrieve.rows.length ≤ size) (agrees : Nat → Bool)
    (matching : ∀ row, agrees row =
      decide (row < tree.retrieve.rows.length ∧ tokens <+: tree.spelling row)) :
    (List.range size).find? agrees = some best := by
  rw [List.find?_range_eq_some, matching, decide_eq_true_eq, List.mem_range]
  refine ⟨⟨atRow.walking.inside, atRow.walking.spelled⟩, atRow.walking.inside.trans_le covered,
    fun earlier before => ?_⟩
  rw [matching]
  simpa using Or.inr (atRow.first earlier before)

theorem currentNode_eq (reads : staged.Reads tree) (atRow : Single.AtRow tree tokens best)
    (maxPaths : Nat) (covered : tree.retrieve.rows.length ≤ maxPaths) :
    currentNode staged tokens.length best maxPaths = reached tree best tokens := by
  obtain ⟨padding, nodes⟩ := reads.retrieve best atRow.walking.inside
  rw [currentNode, firstMatch_eq atRow maxPaths covered _ (matching_eq reads atRow.walking),
    Option.getD_some, nodes, reached_padded atRow]
  rfl

/-- Draft tokens of all rows, as the scalar rule reads them to the host. -/
def hostCandidates (tree : Tree) : List (List Int) :=
  tree.retrieve.rows.map (candidateRow tree.width tree.tokens)

theorem hostCandidates_getD (row : Nat) :
    (hostCandidates tree).getD row [] = Single.candidates tree row := by
  rw [hostCandidates, List.getD_eq_getElem?_getD, List.getElem?_map, Single.candidates,
    List.getD_eq_getElem?_getD]
  cases tree.retrieve.rows[row]? <;> rfl

/-- A row matches the accepted tokens on the host when it is a row that spells them. -/
theorem hostCandidates_match (wellFormed : tree.WellFormed current) (started : tokens ≠ [])
    (row : Nat) :
    (((hostCandidates tree).getD row []).take tokens.length == tokens.map Int.ofNat) =
      decide (row < tree.retrieve.rows.length ∧ tokens <+: tree.spelling row) := by
  rw [hostCandidates_getD]
  by_cases inside : row < tree.retrieve.rows.length
  · rw [Single.candidates_match wellFormed inside]
    simp [inside]
  · cases tokens with
    | nil => exact absurd rfl started
    | cons token rest =>
      simp [inside, Single.candidates, candidateRow, List.getD_eq_getElem?_getD]

theorem hostCandidates_offer (wellFormed : tree.WellFormed current) (started : tokens ≠ [])
    (vocabulary : ∀ token ∈ tree.tokens, token < vocabSize) (row : Nat) :
    tree.offer vocabSize tokens row =
      if (((hostCandidates tree).getD row []).take tokens.length == tokens.map Int.ofNat) = true ∧
          0 ≤ ((hostCandidates tree).getD row []).getD tokens.length (-1) then
        some (((hostCandidates tree).getD row []).getD tokens.length (-1)).toNat
      else none := by
  rw [hostCandidates_match wellFormed started]
  by_cases inside : row < tree.retrieve.rows.length
  · obtain ⟨padding, shape⟩ := Single.candidates_eq wellFormed inside
    rw [hostCandidates_getD, shape, getD_padded, Tree.offer]
    by_cases spelled : tokens <+: tree.spelling row
    · cases read : (tree.spelling row)[tokens.length]? with
      | none => simp [spelled]
      | some token =>
        have bounded := vocabulary token
          (Single.mem_spelling wellFormed inside (List.mem_of_getElem? read))
        simp [spelled, inside, bounded]
    · simp [spelled]
  · rw [Tree.offer_outside vocabSize row tokens started (Nat.le_of_not_lt inside)]
    simp [inside]

/-- The scalar choices are the batch's proposals with their tokens. -/
theorem choices_eq (reads : staged.Reads tree) (wellFormed : tree.WellFormed current)
    (vocabulary : ∀ token ∈ tree.tokens, token < vocabSize) (walking : tree.Walking best tokens)
    (maxPaths : Nat) (covered : tree.retrieve.rows.length ≤ maxPaths) :
    collectChoices (fun path => ((hostCandidates tree).getD path []).getD tokens.length (-1))
        ((List.range (hostCandidates tree).length).filter (fun path =>
          ((hostCandidates tree).getD path []).take tokens.length == tokens.map Int.ofNat)) [] =
      ((List.range maxPaths).filter (proposal vocabSize staged tokens.length best)).map
        (fun path => (path, safeToken vocabSize staged tokens.length best path)) := by
  have first : proposal vocabSize staged tokens.length best =
      Rows.offersFirst (tree.offer vocabSize tokens) :=
    funext (proposal_eq reads walking wellFormed vocabSize)
  have size : (hostCandidates tree).length = tree.retrieve.rows.length := by simp [hostCandidates]
  have collected := collectChoices_eq _ _ (tree.offer vocabSize tokens)
    (hostCandidates_offer wellFormed walking.started vocabulary) tree.retrieve.rows.length 0 []
    (fun token => by simp)
  obtain ⟨extra, rfl⟩ := Nat.exists_eq_add_of_le covered
  have beyond : ((List.range extra).map (tree.retrieve.rows.length + ·)).filter
      (proposal vocabSize staged tokens.length best) = [] := by
    rw [List.filter_eq_nil_iff]
    intro row member
    obtain ⟨past, -, rfl⟩ := List.mem_map.mp member
    simp [first, Rows.offersFirst,
      Tree.offer_outside vocabSize _ tokens walking.started (Nat.le_add_right _ _)]
  rw [size, List.range_eq_range', collected, List.range_add, List.filter_append, beyond,
    List.append_nil, List.range_eq_range', first]
  refine List.map_congr_left fun path member => ?_
  obtain ⟨listed, offers⟩ := List.mem_filter.mp member
  have inside : path < tree.retrieve.rows.length := by simpa using listed
  have proposed : proposal vocabSize staged tokens.length best path = true := by rwa [first]
  obtain ⟨padding, shape⟩ := Single.candidates_eq wellFormed inside
  rw [safeToken, if_pos proposed, siblingToken_eq reads path _ inside, hostCandidates_getD, shape,
    getD_padded]

theorem projectPathNode_eq (wellFormed : tree.WellFormed current)
    (probabilities : Nat → Nat → ℚ) (atRow : Single.AtRow tree tokens best) :
    projectPathNode probabilities tree.retrieve.rows best (tokens.length - 1) =
      .ok (probabilities (reached tree best tokens)) := by
  obtain ⟨⟨padding, shape⟩, -, -⟩ := wellFormed.row_path best atRow.walking.inside
  rw [projectPathNode, shape, reached_padded atRow, if_neg (by omega)]
  rfl

theorem hostCandidates_root (wellFormed : tree.WellFormed current) :
    ((hostCandidates tree).getD 0 []).getD 0 (-1) = (current : Int) := by
  have someRow : 0 < tree.retrieve.rows.length := List.length_pos_iff.mpr wellFormed.nonempty
  obtain ⟨padding, shape⟩ := Single.candidates_eq wellFormed someRow
  rw [hostCandidates_getD, shape, getD_padded, wellFormed.spelling_root 0 someRow]
  rfl

end rows

/-- A row's own part of a level. -/
def rowStepAt (vocabSize maxPaths : Nat) (probabilities : Nat → Nat → ℚ) (uniforms : Uniforms)
    (staged : StagedRow) (depth : Nat) (state : WeighedState) : WeighedState :=
  if takesPart staged depth state then
    rowLevelAt vocabSize maxPaths
      (probabilities (currentNode staged depth state.bestCandidate maxPaths)) uniforms staged depth
      state
  else state

/-- Before a level: both sides walk with the same accepted tokens, or both have ended and the scalar
loop is to return the weights the batch has stored. -/
inductive WalksAgree (probabilities : Nat → Nat → ℚ) (tree : Tree) (depth : Nat) :
    WeighedState → SingleWalk → Prop
  | walking (tokens : List Nat) (best : Nat) (adjusted : Bool) (sampleP : Option (Nat → ℚ))
      (atRow : Single.AtRow tree tokens best) (level : tokens.length = depth) :
      WalksAgree probabilities tree depth ⟨tokens.length, best, none⟩
        ⟨tokens.length, tokens.map Int.ofNat, best, adjusted, sampleP⟩
  | ended (tokens : List Nat) (best : Nat) (adjusted : Bool) (sampleP : Nat → ℚ)
      (atRow : Single.AtRow tree tokens best) (short : tokens.length < depth) :
      WalksAgree probabilities tree depth
        ⟨tokens.length, best,
          some (if adjusted then sampleP else probabilities (reached tree best tokens))⟩
        ⟨tokens.length, tokens.map Int.ofNat, best, adjusted, some sampleP⟩

section level

variable {tree : Tree} {current vocabSize maxPaths depth : Nat} {staged : StagedRow}
  {probabilities : Nat → Nat → ℚ} (uniforms : Uniforms)
  (reads : staged.Reads tree) (wellFormed : tree.WellFormed current)
  (vocabulary : ∀ token ∈ tree.tokens, token < vocabSize)
  (distribution : ∀ node, Distribution vocabSize (probabilities node))
  (covered : tree.retrieve.rows.length ≤ maxPaths)
  (resolved : ∀ tokens best, Single.AtRow tree tokens best →
    Resolved (probabilities (reached tree best tokens)) float32Tiny 1
      (tree.childTokens vocabSize tokens))
include reads wellFormed covered

include distribution resolved in
theorem trials_agree {tokens : List Nat} {best : Nat} (atRow : Single.AtRow tree tokens best) :
    TrialsAgree (proposal vocabSize staged tokens.length best)
      (probabilities (reached tree best tokens))
      (safeToken vocabSize staged tokens.length best) vocabSize best
      (takePaths (proposal vocabSize staged tokens.length best)
        (fun path => probabilities (reached tree best tokens)
          (safeToken vocabSize staged tokens.length best path)) (uniforms tokens.length)
        (List.range maxPaths) ⟨false, best, 1, []⟩)
      (tryChoices (probabilities (reached tree best tokens)) (uniforms tokens.length)
        (((List.range maxPaths).filter (proposal vocabSize staged tokens.length best)).map
          (fun path => (path, safeToken vocabSize staged tokens.length best path)))
        ⟨none, 1, [], false⟩) := by
  have listed := proposals_tokens reads atRow.walking wellFormed vocabSize maxPaths covered
  have whole := (distribution (reached tree best tokens)).leftMass_nil
  have agree := takePaths_agree (proposal vocabSize staged tokens.length best)
    (probabilities (reached tree best tokens)) (uniforms tokens.length)
    (safeToken vocabSize staged tokens.length best)
    (distribution (reached tree best tokens)).nonnegative vocabSize best
    ((List.range maxPaths).filter (proposal vocabSize staged tokens.length best)) []
    (fun path member => (List.mem_filter.mp member).2)
    (fun path member => by
      have child : safeToken vocabSize staged tokens.length best path ∈
          tree.childTokens vocabSize tokens := listed ▸ List.mem_map_of_mem member
      exact ((Tree.mem_childTokens vocabSize _ tokens).mp child).1)
    (by rw [listed]; exact tree.childTokens_nodup vocabSize tokens) (by simp)
    (by rw [listed, List.map_nil, whole]; exact resolved tokens best atRow)
  rw [List.map_nil, whole] at agree
  rw [takePaths_filter]
  exact agree

include vocabulary in
/-- A walking row reads the target at its own node and tries its choices. -/
theorem singleLevel_walking {tokens : List Nat} {best : Nat} (atRow : Single.AtRow tree tokens best)
    (adjusted : Bool) (sampleP : Option (Nat → ℚ)) :
    singleLevel vocabSize probabilities uniforms tree.retrieve.rows (hostCandidates tree)
        ⟨tokens.length, tokens.map Int.ofNat, best, adjusted, sampleP⟩ tokens.length =
      .ok (let weights := probabilities (reached tree best tokens)
        let trials := tryChoices weights (uniforms tokens.length)
          (((List.range maxPaths).filter (proposal vocabSize staged tokens.length best)).map
            (fun path => (path, safeToken vocabSize staged tokens.length best path)))
          ⟨none, 1, [], false⟩
        match trials.accepted with
        | some (path, token) =>
          ⟨tokens.length + 1, tokens.map Int.ofNat ++ [(token : Int)], path, trials.adjusted,
            some weights⟩
        | none => ⟨tokens.length, tokens.map Int.ofNat, best, trials.adjusted,
            some (if trials.adjusted = true ∧ 0 < trials.remainingProbability then
              fun token => if token ∈ trials.rejectedTokens then 0 else weights token
              else weights)⟩) := by
  have size : (hostCandidates tree).length = tree.retrieve.rows.length := by simp [hostCandidates]
  obtain ⟨rest, rows⟩ : ∃ rest, (List.range (hostCandidates tree).length).filter (fun path =>
      ((hostCandidates tree).getD path []).take tokens.length == tokens.map Int.ofNat) =
      best :: rest := by
    rw [← List.head?_eq_some_iff, List.head?_filter]
    exact firstMatch_eq atRow _ size.ge _ (hostCandidates_match wellFormed atRow.walking.started)
  have node := projectPathNode_eq wellFormed probabilities atRow
  have choices := choices_eq reads wellFormed vocabulary atRow.walking maxPaths covered
  have listed := proposals_tokens reads atRow.walking wellFormed vocabSize maxPaths covered
  have bounded : (((List.range maxPaths).filter
      (proposal vocabSize staged tokens.length best)).map
      (fun path => (path, safeToken vocabSize staged tokens.length best path))).any
      (fun choice => vocabSize ≤ choice.2) = false := by
    rw [List.any_eq_false]
    intro choice member
    obtain ⟨path, proposed, rfl⟩ := List.mem_map.mp member
    have child : safeToken vocabSize staged tokens.length best path ∈
        tree.childTokens vocabSize tokens := listed ▸ List.mem_map_of_mem proposed
    simpa using ((Tree.mem_childTokens vocabSize _ tokens).mp child).1
  simp only [singleLevel, ne_eq, not_true_eq_false, if_false]
  rw [rows] at choices ⊢
  simp only [choices, node, bounded, bind, Except.bind, Bool.false_eq_true, if_false]
  rfl

include vocabulary distribution resolved

/-- Both walks take a level alike. -/
theorem singleLevel_agree (inside : depth < tree.retrieve.width) (state : WeighedState)
    (walk : SingleWalk) (agree : WalksAgree probabilities tree depth state walk) :
    ∃ next, singleLevel vocabSize probabilities uniforms tree.retrieve.rows (hostCandidates tree)
        walk depth = .ok next ∧
      WalksAgree probabilities tree (depth + 1)
        (rowStepAt vocabSize maxPaths probabilities uniforms staged depth state) next := by
  cases agree with
  | ended tokens best adjusted sampleP atRow short =>
    refine ⟨_, by rw [singleLevel, if_pos (by dsimp only; omega)], ?_⟩
    rw [rowStepAt, if_neg (by simp [takesPart])]
    exact .ended tokens best adjusted sampleP atRow (by omega)
  | walking tokens best adjusted sampleP atRow level =>
    subst level
    have eligible : takesPart staged tokens.length ⟨tokens.length, best, none⟩ = true := by
      simpa [takesPart, reads.width] using inside
    have agree := trials_agree uniforms reads wellFormed distribution covered resolved atRow
    refine ⟨_, singleLevel_walking uniforms reads wellFormed vocabulary covered atRow adjusted
      sampleP, ?_⟩
    rw [rowStepAt, if_pos eligible, currentNode_eq reads atRow maxPaths covered, rowLevelAt]
    dsimp only
    generalize takePaths _ _ _ _ _ = offers at agree ⊢
    generalize tryChoices _ _ _ _ = trials at agree ⊢
    cases agree with
    | taken path proposed remaining rejected rejectedTokens remainingProbability adjusted =>
      have first := proposed
      rw [proposal_eq reads atRow.walking wellFormed] at first
      obtain ⟨token, offered⟩ := Option.isSome_iff_exists.mp (Bool.and_eq_true_iff.mp first).1
      have moved := offersFirst_atRow path token atRow.walking.started offered first
      rw [safeToken_eq reads atRow.walking vocabSize path token offered proposed]
      have next : WalksAgree probabilities tree (tokens.length + 1) _ _ :=
        .walking (tokens ++ [token]) path adjusted
          (some (probabilities (reached tree best tokens))) moved (by simp)
      simpa using next
    | missed rejected =>
      have left_over : residual vocabSize (probabilities (reached tree best tokens))
          (rejected.map (safeToken vocabSize staged tokens.length best)) =
        if (!rejected.isEmpty) = true then
          if (!rejected.isEmpty) = true ∧ 0 < leftMass (probabilities (reached tree best tokens))
              vocabSize (rejected.map (safeToken vocabSize staged tokens.length best)) then
            fun token => if token ∈ rejected.map (safeToken vocabSize staged tokens.length best) then 0
              else probabilities (reached tree best tokens) token
          else probabilities (reached tree best tokens)
        else probabilities (reached tree best tokens) := by
        cases rejected with
        | nil => simp [residual]
        | cons path paths =>
          simp only [List.isEmpty_cons, Bool.not_false, if_true, true_and]
          rfl
      rw [if_neg Bool.false_ne_true, left_over]
      exact .ended tokens best _ _ atRow (Nat.lt_succ_self _)

theorem singleLevels_agree (count : Nat) (start : Nat) (levels : start + count = tree.retrieve.width)
    (state : WeighedState) (walk : SingleWalk)
    (agree : WalksAgree probabilities tree start state walk) :
    ∃ final, (List.range' start count).foldlM
        (singleLevel vocabSize probabilities uniforms tree.retrieve.rows (hostCandidates tree))
        walk = .ok final ∧
      WalksAgree probabilities tree tree.retrieve.width
        ((List.range' start count).foldl (fun state depth =>
          rowStepAt vocabSize maxPaths probabilities uniforms staged depth state) state) final := by
  induction count generalizing start state walk with
  | zero =>
    obtain rfl : start = tree.retrieve.width := levels
    exact ⟨walk, rfl, agree⟩
  | succ count ih =>
    obtain ⟨next, taken, agrees⟩ := singleLevel_agree uniforms reads wellFormed vocabulary
      distribution covered resolved (by omega) state walk agree
    rw [List.range'_succ, List.foldlM_cons, List.foldl_cons, taken]
    exact ih (start + 1) (by omega) _ next agrees

end level

section batch

variable (vocabSize maxPaths : Nat) (probabilities : Nat → Nat → Nat → ℚ)
  (uniforms : Nat → Uniforms) (rows : List StagedRow)

theorem rowSteps_idle (own : Nat → Nat → ℚ) (drawn : Uniforms) (staged : StagedRow)
    (depths : List Nat) (beyond : ∀ depth ∈ depths, staged.pathWidth ≤ depth) (state : WeighedState) :
    depths.foldl (fun state depth =>
      rowStepAt vocabSize maxPaths own drawn staged depth state) state = state := by
  induction depths generalizing state with
  | nil => rfl
  | cons depth depths ih =>
    have past := beyond depth List.mem_cons_self
    rw [List.foldl_cons, rowStepAt, if_neg (by simp [takesPart, past])]
    exact ih (fun other member => beyond other (List.mem_cons_of_mem _ member)) state

/-- A level of the batch is every row's own part of the level. -/
theorem levelStepAt_eq (depth : Nat) (states : List WeighedState) :
    levelStepAt vocabSize maxPaths probabilities uniforms rows depth states =
      states.mapIdx (fun row state => rowStepAt vocabSize maxPaths (probabilities row)
        (uniforms row) (rows.getD row default) depth state) := by
  simp only [levelStepAt]
  apply List.ext_getElem (by simp)
  intro row inside _
  rw [List.getElem_mapIdx, List.getElem_mapIdx, rowStepAt]
  rw [List.length_mapIdx] at inside
  split
  · next active =>
    have own : states.getD row default = states[row] := by
      simp [List.getD_eq_getElem?_getD, inside]
    rw [compact_getD _ _ _ row, own]
    rw [List.mem_filter, own]
    exact ⟨List.mem_range.mpr inside, active⟩
  · rfl

theorem levelsAt_eq (depths : List Nat) (states : List WeighedState) :
    levelsAt vocabSize maxPaths probabilities uniforms rows depths states =
      states.mapIdx (fun row state => depths.foldl (fun state depth =>
        rowStepAt vocabSize maxPaths (probabilities row) (uniforms row) (rows.getD row default)
          depth state) state) := by
  induction depths generalizing states with
  | nil => simp [levelsAt, List.mapIdx_eq_zipIdx_map]
  | cons depth depths ih =>
    have later := ih
      (levelStepAt vocabSize maxPaths probabilities uniforms rows depth states)
    rw [levelsAt] at later ⊢
    rw [List.foldl_cons, later, levelStepAt_eq, List.mapIdx_mapIdx]
    rfl

end batch

/-- The result of a row that has accepted the tokens along its first spelling. -/
def settledRow (tree : Tree) (best : Nat) (tokens : List Nat) (weights : Nat → ℚ) (nextToken : Nat)
    (sources : List (List H)) : Sampled H where
  accepted := {
    acceptLength := tokens.length - 1
    acceptedTokenIds := tokens.tail
    nextToken := nextToken
    hidden := ((tree.path best).take tokens.length).map
      (fun node => sources.filterMap (fun source => source[node]?))
    bestCandidate := best
    selectedPathIndices := ((tree.path best).take tokens.length).map Int.ofNat }
  weights := weights

section collect

variable {tree : Tree} {current best : Nat} {tokens : List Nat} {staged : StagedRow}

/-- Tokens accepted along a row are the staged tokens of its path. -/
theorem tail_spelled (wellFormed : tree.WellFormed current) (walking : tree.Walking best tokens)
    (inputIds : List Nat)
    (staged : ∀ node < tree.width, inputIds.getD node 0 = tree.tokens.getD node 0) :
    ((tree.path best).tail.take (tokens.length - 1)).map (fun node => inputIds.getD node 0) =
      tokens.tail := by
  obtain ⟨-, -, bounded⟩ := wellFormed.row_path best walking.inside
  have spelled := (List.prefix_iff_eq_take.mp walking.spelled).symm
  calc ((tree.path best).tail.take (tokens.length - 1)).map (fun node => inputIds.getD node 0)
      = ((tree.path best).tail.take (tokens.length - 1)).map
          (fun node => tree.tokens.getD node 0) :=
        List.map_congr_left fun node member =>
          staged node (bounded node (List.mem_of_mem_tail (List.mem_of_mem_take member)))
    _ = ((tree.spelling best).take tokens.length).tail := by
        rw [Tree.spelling, Tree.tokensAt, List.map_take, List.map_tail, List.tail_take_eq_take_tail]
    _ = tokens.tail := by rw [spelled]

/-- The batch collects a walking row with the weights its state stands for. -/
theorem collectWeighed_eq (reads : staged.Reads tree) (wellFormed : tree.WellFormed current)
    (probabilities : Nat → Nat → ℚ) (choose : (Nat → ℚ) → Nat) (inputIds : List Nat)
    (sources : List (List H))
    (tokensStaged : ∀ node < tree.width, inputIds.getD node 0 = tree.tokens.getD node 0)
    (atRow : Single.AtRow tree tokens best) (weights : Option (Nat → ℚ)) :
    collectWeighed probabilities choose staged inputIds sources ⟨tokens.length, best, weights⟩ =
      .ok (settledRow tree best tokens
        (weights.getD (probabilities (reached tree best tokens)))
        (choose (weights.getD (probabilities (reached tree best tokens)))) sources) := by
  obtain ⟨padding, nodes⟩ := reads.retrieve best atRow.walking.inside
  have positive : 0 < tokens.length := List.length_pos_iff.mpr atRow.walking.started
  have onPath : tokens.length ≤ (tree.path best).length := by
    have bound := reached_onPath atRow
    omega
  have settled : finalWeights probabilities staged ⟨tokens.length, best, weights⟩ =
      weights.getD (probabilities (reached tree best tokens)) := by
    rw [finalWeights, nodes, reached_padded atRow]
    rfl
  rw [collectWeighed]
  dsimp only
  rw [settled, collectRow_real staged inputIds sources _ _ padding nodes positive onPath]
  dsimp only
  rw [tail_spelled wellFormed atRow.walking inputIds tokensStaged]
  rfl

/-- The scalar rule collects a walking row from its own unpadded tensors. -/
theorem collectSingle_eq (wellFormed : tree.WellFormed current)
    (atRow : Single.AtRow tree tokens best) (sources : List (List H)) (weights : Nat → ℚ)
    (nextToken : Nat) :
    let selectedPath := (tree.retrieve.rows.getD best []).take (tokens.length - 1 + 1)
    selectedPath.any (fun index => index < 0) = false ∧
      (⟨{ acceptLength := tokens.length - 1
          acceptedTokenIds := (tokens.map Int.ofNat).tail.map Int.toNat
          nextToken := nextToken
          hidden := selectedPath.map (fun index =>
            (sources.map (fun source => [source.take tree.width])).filterMap
              (fun source => (source.getD 0 [])[index.toNat]?))
          bestCandidate := best
          selectedPathIndices := selectedPath }, weights⟩ : Sampled H) =
        settledRow tree best tokens weights nextToken sources := by
  obtain ⟨⟨padding, shape⟩, -, bounded⟩ := wellFormed.row_path best atRow.walking.inside
  have positive : 0 < tokens.length := List.length_pos_iff.mpr atRow.walking.started
  have onPath : tokens.length ≤ (tree.path best).length := by
    have bound := reached_onPath atRow
    omega
  have taken : (tree.retrieve.rows.getD best []).take (tokens.length - 1 + 1) =
      ((tree.path best).take tokens.length).map Int.ofNat := by
    rw [shape, Nat.sub_add_cancel positive,
      List.take_append_of_le_length (by rwa [List.length_map]), List.map_take]
  have genuine : (((tree.path best).take tokens.length).map Int.ofNat).any
      (fun index => index < 0) = false := by
    rw [List.any_eq_false]
    intro index member
    obtain ⟨node, -, rfl⟩ := List.mem_map.mp member
    simp
  have spelled : (tokens.map Int.ofNat).tail.map Int.toNat = tokens.tail := by
    rw [← List.map_tail, List.map_map]
    simp [Function.comp_def]
  have hidden : (((tree.path best).take tokens.length).map Int.ofNat).map (fun index =>
      (sources.map (fun source => [source.take tree.width])).filterMap
        (fun source => (source.getD 0 [])[index.toNat]?)) =
      ((tree.path best).take tokens.length).map
        (fun node => sources.filterMap (fun source => source[node]?)) := by
    rw [List.map_map]
    refine List.map_congr_left fun node member => ?_
    have real := bounded node (List.mem_of_mem_take member)
    rw [Function.comp_apply, List.filterMap_map]
    refine List.filterMap_congr fun source _ => ?_
    simp [real]
  dsimp only
  rw [taken, genuine, spelled, hidden]
  exact ⟨rfl, rfl⟩

theorem acceptSingleSampling_walked {vocabSize : Nat} (wellFormed : tree.WellFormed current)
    (probabilities : Nat → Nat → ℚ) (choose : (Nat → ℚ) → Nat) (uniforms : Uniforms)
    (sources : List (List H)) (count : sources.length = 3)
    (shapes : ∀ source ∈ sources, tree.width ≤ source.length)
    (atRow : Single.AtRow tree tokens best) (adjusted : Bool) (sampleP : Option (Nat → ℚ))
    (walked : (List.range' 1 (tree.retrieve.width - 1)).foldlM
      (singleLevel vocabSize probabilities uniforms tree.retrieve.rows (hostCandidates tree))
      ⟨1, [(current : Int)], 0, false, none⟩ =
        .ok ⟨tokens.length, tokens.map Int.ofNat, best, adjusted, sampleP⟩) :
    acceptSingleSampling vocabSize [tree] [tree.tokens] probabilities
        (sources.map (fun source => [source.take tree.width])) uniforms choose =
      .ok [let weights := match sampleP with
            | none => probabilities (reached tree best tokens)
            | some sampleP =>
              if adjusted = false ∨ tokens.length = tree.retrieve.width then
                probabilities (reached tree best tokens)
              else sampleP
        settledRow tree best tokens weights (choose weights) sources] := by
  have shaped : ¬ ((sources.map (fun source => [source.take tree.width])).length ≠ 3 ∨
      (sources.map (fun source => [source.take tree.width])).any
        (fun source => source.map List.length != [tree.tokens.length]) = true) := by
    rw [not_or, Bool.not_eq_true, List.any_eq_false]
    refine ⟨by simpa using count, fun staged member => ?_⟩
    obtain ⟨source, listed, rfl⟩ := List.mem_map.mp member
    simpa [Tree.width] using shapes source listed
  have node := projectPathNode_eq wellFormed probabilities atRow
  have collected := collectSingle_eq wellFormed atRow sources
  rw [← hostCandidates_root wellFormed] at walked
  unfold acceptSingleSampling
  dsimp only
  rw [if_neg shaped]
  change Except.bind ((List.range' 1 (tree.retrieve.width - 1)).foldlM
      (singleLevel vocabSize probabilities uniforms tree.retrieve.rows (hostCandidates tree))
      ⟨1, [((hostCandidates tree).getD 0 []).getD 0 (-1)], 0, false, none⟩) _ = _
  rw [walked]
  cases sampleP with
  | none =>
    obtain ⟨genuine, same⟩ := collected (probabilities (reached tree best tokens))
      (choose (probabilities (reached tree best tokens)))
    simp only [Except.bind, bind, node, genuine, Bool.false_eq_true, if_false, ← same]
    rfl
  | some sampleP =>
    simp only [Except.bind, bind, node]
    split
    · obtain ⟨genuine, same⟩ := collected (probabilities (reached tree best tokens))
        (choose (probabilities (reached tree best tokens)))
      simp only [genuine, Bool.false_eq_true, if_false, ← same]
      rfl
    · obtain ⟨genuine, same⟩ := collected sampleP (choose sampleP)
      simp only [genuine, Bool.false_eq_true, if_false, ← same]
      rfl

/-- On the same uniform numbers a state both walks agree on gives the same result. -/
theorem collect_agree {vocabSize : Nat} (reads : staged.Reads tree)
    (wellFormed : tree.WellFormed current) (probabilities : Nat → Nat → ℚ)
    (choose : (Nat → ℚ) → Nat) (uniforms : Uniforms) (inputIds : List Nat) (sources : List (List H))
    (tokensStaged : ∀ node < tree.width, inputIds.getD node 0 = tree.tokens.getD node 0)
    (count : sources.length = 3) (shapes : ∀ source ∈ sources, tree.width ≤ source.length)
    (state : WeighedState) (walk : SingleWalk)
    (walked : (List.range' 1 (tree.retrieve.width - 1)).foldlM
      (singleLevel vocabSize probabilities uniforms tree.retrieve.rows (hostCandidates tree))
      ⟨1, [(current : Int)], 0, false, none⟩ = .ok walk)
    (agree : WalksAgree probabilities tree tree.retrieve.width state walk) :
    ∃ sampled, collectWeighed probabilities choose staged inputIds sources state = .ok sampled ∧
      acceptSingleSampling vocabSize [tree] [tree.tokens] probabilities
        (sources.map (fun source => [source.take tree.width])) uniforms choose = .ok [sampled] := by
  cases agree with
  | walking tokens best adjusted sampleP atRow level =>
    refine ⟨_, collectWeighed_eq reads wellFormed probabilities choose inputIds sources tokensStaged
      atRow none, ?_⟩
    rw [acceptSingleSampling_walked wellFormed probabilities choose uniforms sources count shapes atRow
      adjusted sampleP walked]
    cases sampleP <;> simp [level]
  | ended tokens best adjusted sampleP atRow short =>
    refine ⟨_, collectWeighed_eq reads wellFormed probabilities choose inputIds sources tokensStaged
      atRow (some _), ?_⟩
    rw [acceptSingleSampling_walked wellFormed probabilities choose uniforms sources count shapes atRow
      adjusted (some sampleP) walked]
    cases adjusted <;> simp [short.ne]

end collect

/-- The state lies on a path of its own tree. -/
def WeighedState.OnTree (state : WeighedState) (tree : Tree) : Prop :=
  ∃ tokens, tree.Walking state.bestCandidate tokens ∧ tokens.length = state.acceptedWidth

section onTree

variable {tree : Tree} {current : Nat} {staged : StagedRow}

theorem takePaths_taken (offered : Nat → Bool) (probability uniforms : Nat → ℚ) (paths : List Nat)
    (offers : Offers) (open_row : offers.chosen = false)
    (taken : (takePaths offered probability uniforms paths offers).chosen = true) :
    offered (takePaths offered probability uniforms paths offers).chosenPath = true := by
  induction paths generalizing offers with
  | nil => simp [takePaths, open_row] at taken
  | cons path paths ih =>
    rw [takePaths] at taken ⊢
    split at taken
    · next proposed =>
      rw [if_pos proposed]
      split at taken
      · next below =>
        rw [if_pos below, takePaths_chosen _ _ _ _ _ rfl]
        exact (Bool.and_eq_true_iff.mp proposed).1
      · next beyond =>
        rw [if_neg beyond]
        exact ih _ open_row taken
    · next passed =>
      rw [if_neg passed]
      exact ih _ open_row taken

/-- A level keeps a row on its tree: it moves along a proposal or ends. -/
theorem rowStepAt_onTree (vocabSize maxPaths depth : Nat) (probabilities : Nat → Nat → ℚ)
    (uniforms : Uniforms) (reads : staged.Reads tree) (wellFormed : tree.WellFormed current)
    (state : WeighedState) (onTree : state.OnTree tree) :
    (rowStepAt vocabSize maxPaths probabilities uniforms staged depth state).OnTree tree := by
  obtain ⟨tokens, walking, length⟩ := onTree
  unfold rowStepAt
  split
  · next active =>
    have level : tokens.length = depth := by
      simp only [takesPart, Bool.and_eq_true, decide_eq_true_eq] at active
      exact length.trans active.1.2
    subst level
    rw [rowLevelAt]
    split
    · next taken =>
      have proposed := takePaths_taken _ _ _ _ _ rfl taken
      obtain ⟨token, -, walks⟩ := proposal_walks reads walking wellFormed _ proposed
      exact ⟨tokens ++ [token], walks, by simp [length]⟩
    · exact ⟨tokens, walking, length⟩
  · exact ⟨tokens, walking, length⟩

theorem rowSteps_onTree (vocabSize maxPaths : Nat) (probabilities : Nat → Nat → ℚ)
    (uniforms : Uniforms) (reads : staged.Reads tree) (wellFormed : tree.WellFormed current)
    (depths : List Nat) (state : WeighedState) (onTree : state.OnTree tree) :
    (depths.foldl (fun state depth =>
      rowStepAt vocabSize maxPaths probabilities uniforms staged depth state) state).OnTree tree := by
  induction depths generalizing state with
  | nil => exact onTree
  | cons depth depths ih =>
    exact ih _ (rowStepAt_onTree vocabSize maxPaths depth probabilities uniforms reads
      wellFormed state onTree)

theorem collectWeighed_ok (reads : staged.Reads tree) (wellFormed : tree.WellFormed current)
    (probabilities : Nat → Nat → ℚ) (choose : (Nat → ℚ) → Nat) (inputIds : List Nat)
    (sources : List (List H))
    (tokens : ∀ node < tree.width, inputIds.getD node 0 = tree.tokens.getD node 0)
    (state : WeighedState) (onTree : state.OnTree tree) :
    ∃ sampled, collectWeighed probabilities choose staged inputIds sources state = .ok sampled := by
  obtain ⟨accepted, collected, -⟩ := collectRow_spec staged inputIds sources tree current
    ⟨state.acceptedWidth, state.bestCandidate, some (choose (finalWeights probabilities staged state))⟩
    reads wellFormed tokens onTree
  rw [collectWeighed, collected]
  exact ⟨_, rfl⟩

end onTree

section batch

variable (vocabSize padTokenId : Nat) (requests : List (Tree × Nat))
  (probabilities : Nat → Nat → Nat → ℚ) (hiddenSources : List (List (List H)))
  (uniforms : Nat → Uniforms) (choose : Nat → (Nat → ℚ) → Nat)

/-- The state of a row after the levels of the batch. -/
def leveledState (row : Nat) : WeighedState :=
  (List.range' 1
    (maximum ((requests.map Prod.fst).map (fun tree => tree.retrieve.width)) - 1)).foldl
    (fun state depth => rowStepAt vocabSize
      (maximum ((requests.map Prod.fst).map (fun tree => tree.retrieve.rows.length)))
      (probabilities row) (uniforms row) ((stagedRows padTokenId requests).getD row default) depth
      state) ⟨1, 0, none⟩

/-- Collecting one row of the batch. -/
def collectEntry (entry : WeighedState × Nat) : Except String (Sampled H) :=
  collectWeighed (probabilities entry.2) (choose entry.2)
    ((stagedRows padTokenId requests).getD entry.2 default)
    ((packTrees requests padTokenId).inputIds.getD entry.2 [])
    (hiddenSources.map (fun source => source.getD entry.2 [])) entry.1

/-- With staged shapes the batch collects the state of every row. -/
theorem acceptSamplingBatchAt_eq (sources : hiddenSources.length = 3)
    (shapes : ∀ source ∈ hiddenSources, source.map List.length =
      List.replicate requests.length (packTrees requests padTokenId).treeWidth) :
    acceptSamplingBatchAt vocabSize (requests.map Prod.fst) (packTrees requests padTokenId)
        probabilities hiddenSources uniforms choose =
      (((List.range requests.length).map
        (leveledState vocabSize padTokenId requests probabilities uniforms)).zipIdx).mapM
          (collectEntry padTokenId requests probabilities hiddenSources choose) := by
  have staged : (packTrees requests padTokenId).inputIds.length = requests.length := by
    simp [packTrees]
  have shaped : ¬ (hiddenSources.length ≠ 3 ∨ hiddenSources.any (fun source =>
      source.map List.length !=
        List.replicate requests.length (packTrees requests padTokenId).treeWidth) = true) := by
    simpa [sources] using shapes
  have states : ((stagedRows padTokenId requests).map
      (fun _ => (⟨1, 0, none⟩ : WeighedState))).mapIdx (fun row state =>
        (List.range' 1
          (maximum ((requests.map Prod.fst).map (fun tree => tree.retrieve.width)) - 1)).foldl
          (fun state depth => rowStepAt vocabSize
            (maximum ((requests.map Prod.fst).map (fun tree => tree.retrieve.rows.length)))
            (probabilities row) (uniforms row) ((stagedRows padTokenId requests).getD row default)
            depth state) state) =
      (List.range requests.length).map
        (leveledState vocabSize padTokenId requests probabilities uniforms) := by
    apply List.ext_getElem (by simp [stagedRows])
    intro row inside _
    rw [List.getElem_mapIdx, List.getElem_map, List.getElem_map, List.getElem_range]
    rfl
  simp only [acceptSamplingBatchAt, staged, List.length_map, ne_eq, not_true_eq_false, if_false,
    if_neg shaped, levelsAt_eq]
  rw [← states]
  rfl

theorem leveledState_onTree (row : Nat) (request : Tree × Nat) (current : Nat)
    (listed : requests[row]? = some request) (wellFormed : request.1.WellFormed current) :
    (leveledState vocabSize padTokenId requests probabilities uniforms row).OnTree request.1 := by
  have someRow : 0 < request.1.retrieve.rows.length := List.length_pos_iff.mpr wellFormed.nonempty
  refine rowSteps_onTree _ _ _ _ (stagedRows_reads padTokenId requests row request current listed
    wellFormed) wellFormed _ _ ⟨[current], ⟨someRow, by simp, ?_⟩, rfl⟩
  rw [wellFormed.spelling_root 0 someRow]
  exact ⟨_, rfl⟩

/-- A row leaves the levels of the batch as it leaves those of its own width. -/
theorem leveledState_eq (row : Nat) (request : Tree × Nat) (current : Nat)
    (listed : requests[row]? = some request) (wellFormed : request.1.WellFormed current)
    (positive : 0 < request.1.retrieve.width) :
    leveledState vocabSize padTokenId requests probabilities uniforms row =
      (List.range' 1 (request.1.retrieve.width - 1)).foldl (fun state depth => rowStepAt vocabSize
        (maximum ((requests.map Prod.fst).map (fun tree => tree.retrieve.rows.length)))
        (probabilities row) (uniforms row) ((stagedRows padTokenId requests).getD row default) depth
        state) ⟨1, 0, none⟩ := by
  have reads := stagedRows_reads padTokenId requests row request current listed wellFormed
  have widest := le_maximum _ _ (List.mem_map_of_mem
    (f := fun tree : Tree => tree.retrieve.width)
    (List.mem_map_of_mem (f := Prod.fst) (List.mem_of_getElem? listed)))
  obtain ⟨extra, widths⟩ := Nat.exists_eq_add_of_le widest
  have split : List.range' 1
      (maximum ((requests.map Prod.fst).map (fun tree => tree.retrieve.width)) - 1) =
      List.range' 1 (request.1.retrieve.width - 1) ++ List.range' request.1.retrieve.width extra := by
    have own : request.1.retrieve.width = 1 + (request.1.retrieve.width - 1) := by omega
    have total : request.1.retrieve.width + extra - 1 = request.1.retrieve.width - 1 + extra := by
      omega
    rw [widths, total, ← List.range'_append_1, ← own]
  rw [leveledState, split, List.foldl_append, rowSteps_idle]
  intro depth member
  rw [reads.width]
  exact (List.mem_range'_1.mp member).1

/-- **A row of the batched sampler is the scalar sampler.** For every batch of well-formed trees,
all targets, uniform numbers and choices: the batched rule returns a result for every row, and a
row's result, with its accepted path, tokens, hidden states and the weights of its next token, is
what the scalar rule returns for that request alone on the row's uniform numbers. The row's
proposals of positive probability must be tested while the guard of the divisor is out of play. -/
theorem acceptSamplingBatchAt_row
    (wellFormed : ∀ request ∈ requests, ∃ current, request.1.WellFormed current)
    (distribution : ∀ row node, Distribution vocabSize (probabilities row node))
    (sources : hiddenSources.length = 3)
    (shapes : ∀ source ∈ hiddenSources, source.map List.length =
      List.replicate requests.length (packTrees requests padTokenId).treeWidth)
    (row : Nat) (request : Tree × Nat) (listed : requests[row]? = some request)
    (vocabulary : ∀ token ∈ request.1.tokens, token < vocabSize)
    (resolved : ∀ tokens best, Single.AtRow request.1 tokens best →
      Resolved (probabilities row (reached request.1 best tokens)) float32Tiny 1
        (request.1.childTokens vocabSize tokens)) :
    ∃ (results : List (Sampled H)) (sampled : Sampled H),
      acceptSamplingBatchAt vocabSize (requests.map Prod.fst) (packTrees requests padTokenId)
        probabilities hiddenSources uniforms choose = .ok results ∧
      results.length = requests.length ∧ results[row]? = some sampled ∧
      acceptSingleSampling vocabSize [request.1] [request.1.tokens] (probabilities row)
        (hiddenSources.map (fun source => [(source.getD row []).take request.1.width]))
        (uniforms row) (choose row) = .ok [sampled] := by
  obtain ⟨current, own⟩ := wellFormed request (List.mem_of_getElem? listed)
  have inside : row < requests.length := (List.getElem?_eq_some_iff.mp listed).1
  obtain ⟨results, collected, lengths, related⟩ := Rows.mapM_zipIdx
    ((List.range requests.length).map
      (leveledState vocabSize padTokenId requests probabilities uniforms))
    (collectEntry padTokenId requests probabilities hiddenSources choose)
    (fun other state sampled =>
      collectEntry padTokenId requests probabilities hiddenSources choose (state, other) = .ok sampled)
    (by
      intro other state read
      obtain ⟨within, rfl⟩ := List.getElem?_eq_some_iff.mp read
      rw [List.length_map, List.length_range] at within
      obtain ⟨root, formed⟩ := wellFormed _ (List.getElem_mem within)
      have read := List.getElem?_eq_getElem within
      rw [List.getElem_map, List.getElem_range]
      obtain ⟨sampled, result⟩ := collectWeighed_ok
        (stagedRows_reads padTokenId requests other _ root read formed) formed (probabilities other)
        (choose other) _ (hiddenSources.map (fun source => source.getD other []))
        (fun node real => packed_token requests padTokenId other node _ read real) _
        (leveledState_onTree vocabSize padTokenId requests probabilities uniforms other _ root read
          formed)
      exact ⟨sampled, result, result⟩)
  rw [List.length_map, List.length_range] at lengths
  have inResults : row < results.length := lengths ▸ inside
  have leveled : ((List.range requests.length).map
      (leveledState vocabSize padTokenId requests probabilities uniforms))[row]? =
      some (leveledState vocabSize padTokenId requests probabilities uniforms row) := by
    simp [inside]
  have result := related row _ _ leveled (List.getElem?_eq_getElem inResults)
  refine ⟨results, results[row], ?_, lengths, List.getElem?_eq_getElem inResults, ?_⟩
  · rw [acceptSamplingBatchAt_eq vocabSize padTokenId requests probabilities hiddenSources uniforms
      choose sources shapes, collected]
  · have someRow : 0 < request.1.retrieve.rows.length := List.length_pos_iff.mpr own.nonempty
    have positive := own.retrieve_pos
    have start : WalksAgree (probabilities row) request.1 1 ⟨1, 0, none⟩
        ⟨1, [(current : Int)], 0, false, none⟩ := by
      refine .walking [current] 0 false none ⟨⟨someRow, by simp, ?_⟩, by simp⟩ rfl
      rw [own.spelling_root 0 someRow]
      exact ⟨_, rfl⟩
    have covered := le_maximum _ _ (List.mem_map_of_mem
      (f := fun tree : Tree => tree.retrieve.rows.length)
      (List.mem_map_of_mem (f := Prod.fst) (List.mem_of_getElem? listed)))
    have reads := stagedRows_reads padTokenId requests row request current listed own
    obtain ⟨walk, walked, agree⟩ := singleLevels_agree (uniforms row) reads own vocabulary
      (distribution row) covered resolved (request.1.retrieve.width - 1) 1 (by omega) _ _ start
    rw [← leveledState_eq vocabSize padTokenId requests probabilities uniforms row request current
      listed own positive] at agree
    have wide : ∀ source ∈ hiddenSources.map (fun source => source.getD row []),
        request.1.width ≤ source.length := by
      intro staged member
      obtain ⟨source, ofSource, rfl⟩ := List.mem_map.mp member
      have fits := width_le_treeWidth requests padTokenId request (List.mem_of_getElem? listed)
      have read : (source.map List.length)[row]? = some (packTrees requests padTokenId).treeWidth := by
        rw [shapes source ofSource]
        simp [inside]
      rw [List.getElem?_map] at read
      obtain ⟨entry, atRow, width⟩ := Option.map_eq_some_iff.mp read
      rwa [List.getD_eq_getElem?_getD, atRow, Option.getD_some, width]
    obtain ⟨sampled, collectedRow, scalar⟩ := collect_agree reads own (probabilities row) (choose row)
      (uniforms row) ((packTrees requests padTokenId).inputIds.getD row []) _
      (fun node real => packed_token requests padTokenId row node request listed real)
      (by rw [List.length_map, sources]) wide _ walk walked agree
    obtain rfl : results[row] = sampled := Except.ok.inj (result.symm.trans collectedRow)
    rw [List.map_map] at scalar
    exact scalar

end batch

/-- The fork in one batch with a wider ragged tree, on uniform numbers that differ by row. -/
theorem acceptSamplingBatchAt_row_fork :
    ∃ (results : List (Sampled Unit)) (sampled : Sampled Unit),
      acceptSamplingBatchAt 2 [fork, twins] (packTrees [(fork, 3), (twins, 5)] 0)
        (fun _ _ => coin (3 / 4)) (List.replicate 3 (List.replicate 2 (List.replicate 4 ())))
        (fun row _ path => if row = path then 1 / 2 else 1) (fun _ _ => 0) = .ok results ∧
      results.length = 2 ∧ results[0]? = some sampled ∧
      acceptSingleSampling 2 [fork] [fork.tokens] (fun _ => coin (3 / 4))
        (List.replicate 3 [List.replicate 3 ()]) (fun _ path => if 0 = path then 1 / 2 else 1)
        (fun _ => 0) = .ok [sampled] := by
  have fair := coin_distribution (3 / 4) (by norm_num) (by norm_num)
  have normal : ∀ token, 0 < coin (3 / 4) token → float32Tiny ≤ coin (3 / 4) token := by
    intro token positive
    unfold coin at positive ⊢
    split
    · norm_num [float32Tiny]
    · split
      · norm_num [float32Tiny]
      · simp_all
  exact acceptSamplingBatchAt_row 2 0 [(fork, 3), (twins, 5)] (fun _ _ => coin (3 / 4))
    (List.replicate 3 (List.replicate 2 (List.replicate 4 ())))
    (fun row _ path => if row = path then 1 / 2 else 1) (fun _ _ => 0)
    (by
      intro request member
      rcases (by simpa using member : request = (fork, 3) ∨ request = (twins, 5)) with rfl | rfl
      · exact ⟨0, Tree.checked_wellFormed _ _ (by decide)⟩
      · exact ⟨1, Tree.checked_wellFormed _ _ (by decide)⟩)
    (fun _ _ => fair) (by decide) (by decide) 0 (fork, 3) rfl (by decide)
    (fun tokens _ _ => fair.resolved normal fork tokens)

/-- With every probability positive and the second sibling rarer than the smallest normal number,
the same uniform numbers make the scalar rule take it and the batched rule refuse it. -/
theorem acceptSamplingBatchAt_refuses :
    fork.WellFormed 0 ∧ Distribution 2 (coin (1 / 2 ^ 127)) ∧
    (∀ token < 2, 0 < coin (1 / 2 ^ 127) token) ∧
    (acceptSamplingBatchAt 2 [fork] (packTrees [(fork, 1)] 0) (fun _ _ => coin (1 / 2 ^ 127))
        (List.replicate 3 [[(), (), ()]])
        (fun _ _ path => if path = 0 then 1 - 1 / 2 ^ 128 else 3 / 4) (fun _ _ => 0)).map
      (fun results => results.map (·.accepted.acceptedTokenIds)) = .ok [[]] ∧
    (acceptSingleSampling 2 [fork] [fork.tokens] (fun _ => coin (1 / 2 ^ 127))
        (List.replicate 3 [[(), (), ()]])
        (fun _ path => if path = 0 then 1 - 1 / 2 ^ 128 else 3 / 4) (fun _ => 0)).map
      (fun results => results.map (·.accepted.acceptedTokenIds)) = .ok [[1]] := by
  refine ⟨Tree.checked_wellFormed _ _ (by decide), coin_distribution _ (by norm_num) (by norm_num),
    by decide +kernel, ?_, ?_⟩
  · decide +kernel
  · decide +kernel

end SpecBlock.Batch
