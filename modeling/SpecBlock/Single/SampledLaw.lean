import Mathlib.Data.List.Find
import SpecBlock.Single.SampledVerify

/-!
# The law of a sampled verification

Every level of the walk reads the target at the first row that spells the accepted tokens, and
the walk follows that row, so the target is a function of the tokens whatever the logits of
other nodes with the same tokens are. Testing the next tokens one after the other and drawing
from what they leave is one draw from the target, and the levels together are ancestral sampling
for as long as the tree drafts the tokens.

Up to the threshold the accepted path is the greedy one, but at a positive temperature the next
token is drawn with the raw logits as weights. That draw is the greedy choice only when no other
token has a weight.
-/

namespace SpecBlock.Single

open Batch Rejection

variable {H : Type}

/-- The first row that spells the tokens. -/
def firstRow (tree : Tree) (tokens : List Nat) : Nat :=
  ((List.range tree.retrieve.rows.length).find?
    (fun row => decide (tokens <+: tree.spelling row))).getD 0

/-- The target after some tokens of the tree, read where the first row spells them. -/
def rowTarget (softmax : (Nat → ℚ) → Nat → ℚ) (logits : Nat → Nat → ℚ) (temperature : ℚ)
    (tree : Tree) (tokens : List Nat) : Nat → ℚ :=
  tempered softmax logits temperature (nodeAt tree (firstRow tree tokens) (tokens.length - 1))

/-- The walk has accepted the tokens along the first row that spells them. -/
structure AtRow (tree : Tree) (tokens : List Nat) (row : Nat) : Prop where
  walking : tree.Walking row tokens
  first : ∀ earlier < row, ¬tokens <+: tree.spelling earlier

section rows

variable {tree : Tree} {current row : Nat} {tokens : List Nat}

/-- The row of a walk is the first row that spells its tokens. -/
theorem AtRow.firstRow_eq (atRow : AtRow tree tokens row) : firstRow tree tokens = row := by
  have found : (List.range tree.retrieve.rows.length).find?
      (fun row => decide (tokens <+: tree.spelling row)) = some row := by
    rw [List.find?_range_eq_some]
    exact ⟨decide_eq_true atRow.walking.spelled, List.mem_range.mpr atRow.walking.inside,
      fun earlier before => by simpa using atRow.first earlier before⟩
  rw [firstRow, found, Option.getD_some]

theorem candidates_eq (wellFormed : tree.WellFormed current) (inside : row < tree.retrieve.rows.length) :
    ∃ padding, candidates tree row =
      (tree.spelling row).map Int.ofNat ++ List.replicate padding (-1) := by
  obtain ⟨⟨padding, shape⟩, -, bounded⟩ := wellFormed.row_path row inside
  refine ⟨padding, ?_⟩
  rw [candidates, shape, candidateRow, List.map_append, List.map_map, List.map_replicate,
    Tree.spelling, Tree.tokensAt, List.map_map]
  congr 1
  · refine List.map_congr_left fun node onPath => ?_
    have real := bounded node onPath
    unfold Tree.width at real
    simp [List.getD_eq_getElem?_getD, List.getElem?_append_left, real]
  · simp [Tree.width]

theorem candidates_match (wellFormed : tree.WellFormed current)
    (inside : row < tree.retrieve.rows.length) (tokens : List Nat) :
    ((candidates tree row).take tokens.length == tokens.map Int.ofNat) =
      decide (tokens <+: tree.spelling row) := by
  obtain ⟨padding, shape⟩ := candidates_eq wellFormed inside
  rw [shape, Bool.eq_iff_iff, beq_iff_eq, decide_eq_true_iff]
  exact take_padded _ tokens padding

theorem mem_spelling (wellFormed : tree.WellFormed current) (inside : row < tree.retrieve.rows.length)
    {token : Nat} (spelled : token ∈ tree.spelling row) : token ∈ tree.tokens := by
  obtain ⟨-, -, bounded⟩ := wellFormed.row_path row inside
  obtain ⟨node, onPath, rfl⟩ := List.mem_map.mp spelled
  have real := bounded node onPath
  unfold Tree.width at real
  rw [List.getD_eq_getElem?_getD, List.getElem?_eq_getElem real]
  exact List.getElem_mem real

/-- A matching row has a next token to test exactly when it spells one that is not rejected. -/
theorem tested_iff (wellFormed : tree.WellFormed current)
    (inside : row < tree.retrieve.rows.length) (rejected : List Nat) :
    (((candidates tree row).take tokens.length == tokens.map Int.ofNat) = true ∧
        (candidates tree row).getD tokens.length (-1) ∉ rejected.map Int.ofNat ∧
        (candidates tree row).getD tokens.length (-1) ≠ -1) ↔
      ∃ token : Nat, (candidates tree row).getD tokens.length (-1) = token ∧
        tokens ++ [token] <+: tree.spelling row ∧ token ∉ rejected := by
  obtain ⟨padding, shape⟩ := candidates_eq wellFormed inside
  rw [candidates_match wellFormed inside, shape, getD_padded, decide_eq_true_iff]
  constructor
  · rintro ⟨⟨rest, spelled⟩, fresh, genuine⟩
    rw [← spelled] at fresh genuine ⊢
    cases rest with
    | nil => simp at genuine
    | cons next rest =>
      refine ⟨next, by simp, ⟨rest, by simp⟩, ?_⟩
      simpa using fresh
  · rintro ⟨token, -, ⟨rest, spelled⟩, fresh⟩
    rw [← spelled]
    refine ⟨⟨token :: rest, by simp⟩, ?_, by simp⟩
    simpa using fresh

end rows

section level

variable {vocabSize current : Nat} {tree : Tree} {weights : Nat → ℚ} {tokens : List Nat} {best : Nat}

/-- What is left of the target after some rejections. -/
def leftShare (weights : Nat → ℚ) (vocabSize : Nat) (rejected : List Nat) (token : Nat) : ℚ :=
  left weights rejected token / leftMass weights vocabSize rejected

/-- The walk at a level after some rejections. -/
def levelWalk (weights : Nat → ℚ) (vocabSize : Nat) (tokens : List Nat) (best : Nat)
    (rejected : List Nat) : SampleWalk where
  acceptLength := tokens.length
  acceptCand := tokens.map Int.ofNat
  bestCandidate := best
  adjustFlag := !rejected.isEmpty
  gtp := leftShare weights vocabSize rejected

theorem rejectToken_leftShare {rejected : List Nat} {token : Nat}
    (positive : 0 < leftMass weights vocabSize rejected)
    (some_left : 0 < leftMass weights vocabSize (rejected ++ [token])) :
    rejectToken vocabSize (leftShare weights vocabSize rejected) token =
      leftShare weights vocabSize (rejected ++ [token]) := by
  have struck (other : Nat) :
      (if other = token then 0 else leftShare weights vocabSize rejected other) =
        left weights (rejected ++ [token]) other / leftMass weights vocabSize rejected := by
    by_cases same : other = token
    · simp [same, left]
    · by_cases gone : other ∈ rejected <;> simp [same, leftShare, left, gone]
  have sum : ∑ other ∈ Finset.range vocabSize,
      (if other = token then 0 else leftShare weights vocabSize rejected other) =
        leftMass weights vocabSize (rejected ++ [token]) / leftMass weights vocabSize rejected := by
    rw [leftMass, Finset.sum_div]
    exact Finset.sum_congr rfl fun other _ => struck other
  unfold rejectToken
  dsimp only
  rw [sum, if_pos (div_pos some_left positive)]
  funext other
  rw [struck, leftShare]
  field_simp

/-- Testing the next tokens of the rows still to come and settling what is left averages like one
draw from what the rejections so far have left. The induction is on the rows to come; every token
an earlier row drafts next has been rejected. -/
theorem tryRows_average (wellFormed : tree.WellFormed current)
    (vocabulary : ∀ token ∈ tree.tokens, token < vocabSize)
    (nonnegative : ∀ token, 0 ≤ weights token) (settle : SampleWalk → ℚ) (value missed : Nat → ℚ)
    (moves : ∀ (row token : Nat), AtRow tree (tokens ++ [token]) row → ∀ (flag : Bool) (gtp : Nat → ℚ),
      settle ⟨tokens.length + 1, tokens.map Int.ofNat ++ [(token : Int)], row, flag, gtp⟩ =
        value token)
    (ends : ∀ rejected, 0 < leftMass weights vocabSize rejected →
      leftMass weights vocabSize rejected * settle (levelWalk weights vocabSize tokens best rejected) =
        leftSum weights vocabSize rejected missed)
    (undrafted : ∀ token < vocabSize, tree.drafts (tokens ++ [token]) = false →
      value token = missed token)
    (count start : Nat) (rows : start + count = tree.retrieve.rows.length) (rejected : List Nat)
    (earlier : ∀ row < start, ∀ token, tokens ++ [token] <+: tree.spelling row → token ∈ rejected)
    (positive : 0 < leftMass weights vocabSize rejected) :
    leftMass weights vocabSize rejected *
        (tryRows vocabSize tree tokens.length
          (fun row => (candidates tree row).take tokens.length == tokens.map Int.ofNat)
          (List.range' start count) (rejected.map Int.ofNat)
          (levelWalk weights vocabSize tokens best rejected)).expect settle =
      leftSum weights vocabSize rejected value := by
  induction count generalizing start rejected with
  | zero =>
    rw [List.range'_zero, tryRows, Law.expect_pure, ends rejected positive]
    refine Finset.sum_congr rfl fun token member => ?_
    by_cases gone : token ∈ rejected
    · simp [left, gone]
    · rw [undrafted token (Finset.mem_range.mp member)]
      rw [Tree.drafts, List.any_eq_false]
      intro row listed
      rw [decide_eq_true_iff]
      exact fun spelled => gone (earlier row (by have := List.mem_range.mp listed; omega) token spelled)
  | succ count ih =>
    have inside : start < tree.retrieve.rows.length := by omega
    have later (grown : List Nat) (more : ∀ token, tokens ++ [token] <+: tree.spelling start →
        token ∈ grown) (kept : ∀ token ∈ rejected, token ∈ grown) (row : Nat) (before : row < start + 1)
        (token : Nat) (spelled : tokens ++ [token] <+: tree.spelling row) : token ∈ grown := by
      rcases Nat.lt_succ_iff_lt_or_eq.mp before with past | rfl
      · exact kept token (earlier row past token spelled)
      · exact more token spelled
    have same_next {token other : Nat} (spelled : tokens ++ [token] <+: tree.spelling start)
        (spelled' : tokens ++ [other] <+: tree.spelling start) : token = other := by
      have equal := List.prefix_of_prefix_length_le spelled spelled' (by simp)
      simpa using equal.eq_of_length (by simp)
    rw [List.range'_succ, tryRows]
    by_cases test : ∃ token : Nat, (candidates tree start).getD tokens.length (-1) = token ∧
        tokens ++ [token] <+: tree.spelling start ∧ token ∉ rejected
    · rw [if_pos ((tested_iff wellFormed inside rejected).mpr test), Law.expect_bind]
      obtain ⟨token, next, spelled, fresh⟩ := test
      have bounded := vocabulary token (mem_spelling wellFormed inside (spelled.subset (by simp)))
      have atRow : AtRow tree (tokens ++ [token]) start :=
        ⟨⟨inside, by simp, spelled⟩, fun row before agrees => fresh (earlier row before token agrees)⟩
      rw [next, Int.toNat_natCast]
      have threshold : (levelWalk weights vocabSize tokens best rejected).gtp token =
          weights token / max (leftMass weights vocabSize rejected) 0 := by
        rw [max_eq_left positive.le]
        simp [levelWalk, leftShare, left, fresh]
      -- the walk moves along the token, or the token is rejected and the later rows follow
      have branches (take : Bool) : (if take = true then
            pure (⟨tokens.length + 1, tokens.map Int.ofNat ++ [(token : Int)], start,
              !rejected.isEmpty, leftShare weights vocabSize rejected⟩ : SampleWalk)
          else tryRows vocabSize tree tokens.length
            (fun row => (candidates tree row).take tokens.length == tokens.map Int.ofNat)
            (List.range' (start + 1) count) (rejected.map Int.ofNat ++ [(token : Int)])
            { levelWalk weights vocabSize tokens best rejected with
              gtp := rejectToken vocabSize (leftShare weights vocabSize rejected) token
              adjustFlag := true }).expect settle =
          if take then value token else (tryRows vocabSize tree tokens.length
            (fun row => (candidates tree row).take tokens.length == tokens.map Int.ofNat)
            (List.range' (start + 1) count) (rejected.map Int.ofNat ++ [(token : Int)])
            { levelWalk weights vocabSize tokens best rejected with
              gtp := rejectToken vocabSize (leftShare weights vocabSize rejected) token
              adjustFlag := true }).expect settle := by
        cases take with
        | true => simp [moves start token atRow]
        | false => simp
      rw [threshold]
      refine Eq.trans (congrArg _ (Law.expect_congr _ _ _ fun take _ => branches take)) ?_
      refine test_average nonnegative vocabSize rejected token value 0 _ bounded fresh positive
        (fun _ => positive.le) fun some_left => ?_
      have grown := ih (start + 1) (by omega) (rejected ++ [token])
        (later (rejected ++ [token]) (fun other spelled' => by simp [same_next spelled' spelled])
          fun other member => List.mem_append_left _ member) some_left
      have walk : levelWalk weights vocabSize tokens best (rejected ++ [token]) =
          { levelWalk weights vocabSize tokens best rejected with
            gtp := leftShare weights vocabSize (rejected ++ [token])
            adjustFlag := true } := by
        unfold levelWalk
        congr 1
        cases rejected <;> rfl
      rw [walk, List.map_append] at grown
      rw [rejectToken_leftShare positive some_left]
      exact grown
    · rw [if_neg fun tested => test ((tested_iff wellFormed inside rejected).mp tested)]
      refine ih (start + 1) (by omega) rejected (later rejected ?_ fun _ => id) positive
      intro token spelled
      by_contra fresh
      refine test ⟨token, ?_, spelled, fresh⟩
      obtain ⟨padding, shape⟩ := candidates_eq wellFormed inside
      obtain ⟨rest, whole⟩ := spelled
      rw [shape, getD_padded, ← whole]
      simp

/-- A level of the walk draws one token from the target at the first row that spells the accepted
tokens: a drafted token moves the walk, another one settles it. -/
theorem sampleLevel_average (wellFormed : tree.WellFormed current)
    (vocabulary : ∀ token ∈ tree.tokens, token < vocabSize) {softmax : (Nat → ℚ) → Nat → ℚ}
    {logits : Nat → Nat → ℚ} {temperature : ℚ}
    (distribution : Distribution vocabSize (rowTarget softmax logits temperature tree tokens))
    (settle : SampleWalk → ℚ) (value missed : Nat → ℚ)
    (moves : ∀ (row token : Nat), AtRow tree (tokens ++ [token]) row → ∀ (flag : Bool) (gtp : Nat → ℚ),
      settle ⟨tokens.length + 1, tokens.map Int.ofNat ++ [(token : Int)], row, flag, gtp⟩ =
        value token)
    (ends : ∀ rejected,
      0 < leftMass (rowTarget softmax logits temperature tree tokens) vocabSize rejected →
      leftMass (rowTarget softmax logits temperature tree tokens) vocabSize rejected *
          settle (levelWalk (rowTarget softmax logits temperature tree tokens) vocabSize tokens best
            rejected) =
        leftSum (rowTarget softmax logits temperature tree tokens) vocabSize rejected missed)
    (undrafted : ∀ token < vocabSize, tree.drafts (tokens ++ [token]) = false →
      value token = missed token) (flag : Bool) (gtp : Nat → ℚ) :
    (sampleLevel vocabSize softmax logits temperature tree tokens.length
        ⟨tokens.length, tokens.map Int.ofNat, best, flag, gtp⟩).expect settle =
      ∑ token ∈ Finset.range vocabSize,
        rowTarget softmax logits temperature tree tokens token * value token := by
  have matching (row : Nat) (listed : row ∈ List.range tree.retrieve.rows.length) :
      ((candidates tree row).take tokens.length == tokens.map Int.ofNat) =
        decide (tokens <+: tree.spelling row) :=
    candidates_match wellFormed (List.mem_range.mp listed) tokens
  have first : ((List.range tree.retrieve.rows.length).find?
      (fun row => (candidates tree row).take tokens.length == tokens.map Int.ofNat)).getD 0 =
        firstRow tree tokens := congrArg (fun row => row.getD 0) (List.find?_congr matching)
  have whole := distribution.leftMass_nil
  have average := tryRows_average wellFormed vocabulary distribution.nonnegative settle value missed
    moves ends undrafted tree.retrieve.rows.length 0 (Nat.zero_add _) [] (by simp)
    (by rw [whole]; exact one_pos)
  have whole_sum : leftSum (rowTarget softmax logits temperature tree tokens) vocabSize [] value =
      ∑ token ∈ Finset.range vocabSize,
        rowTarget softmax logits temperature tree tokens token * value token := by
    simp [leftSum, left]
  have fresh : leftShare (rowTarget softmax logits temperature tree tokens) vocabSize [] =
      rowTarget softmax logits temperature tree tokens := by
    funext token
    simp [leftShare, left, whole]
  rw [whole, one_mul, whole_sum] at average
  rw [← average, sampleLevel, if_neg (by simp)]
  dsimp only
  rw [first, List.range_eq_range']
  unfold levelWalk
  rw [fresh]
  rfl

end level

/-- The tokens a result stands for, the current token first. -/
def emission (current : Nat) : Except String (Accepted H) → Option (List Nat)
  | .ok accepted => some (current :: accepted.proposed)
  | .error _ => none

/-- A draw by weights that are not negative averages with the normalised weights. -/
theorem drawNext_average {vocabSize node : Nat} {softmax : (Nat → ℚ) → Nat → ℚ}
    {logits : Nat → Nat → ℚ} {temperature : ℚ} (hot : 0 < temperature) {weights : Nat → ℚ}
    (nonnegative : ∀ token < vocabSize, 0 ≤ weights token)
    (positive : 0 < ∑ token ∈ Finset.range vocabSize, weights token)
    (value : Except String Nat → ℚ) :
    (drawNext vocabSize softmax logits temperature weights node).expect value =
      (∑ token ∈ Finset.range vocabSize, weights token * value (.ok token)) /
        ∑ token ∈ Finset.range vocabSize, weights token := by
  have genuine : ¬(List.range vocabSize).any (fun token => weights token < 0) = true := by
    rw [List.any_eq_true]
    rintro ⟨token, listed, negative⟩
    exact absurd (nonnegative token (List.mem_range.mp listed)) (not_le.mpr (of_decide_eq_true negative))
  rw [drawNext, if_pos hot, if_pos positive, torchMultinomial, if_neg genuine, Law.expect_map,
    Law.expect_multinomial]

section walk

variable {vocabSize current : Nat} {tree : Tree} {softmax : (Nat → ℚ) → Nat → ℚ}
  {logits : Nat → Nat → ℚ} {temperature : ℚ} {tokens : List Nat} {best : Nat}

/-- What is read off the row of a walk are its tokens and the next one. -/
theorem decided_proposed (wellFormed : tree.WellFormed current) (hidden : Nat → List H)
    (walking : tree.Walking best tokens) (next : Nat) :
    current :: (decided tree hidden (tokens.length - 1) best next).proposed = tokens ++ [next] := by
  obtain ⟨⟨padding, shape⟩, -, -⟩ := wellFormed.row_path best walking.inside
  have root := wellFormed.spelling_root best walking.inside
  have positive : 0 < tokens.length := List.length_pos_iff.mpr walking.started
  have onPath : tokens.length ≤ (tree.path best).length := by
    have bound := walking.spelled.length_le
    rwa [Tree.spelling_length] at bound
  have spelled : tokens = (tree.spelling best).take tokens.length :=
    List.prefix_iff_eq_take.mp walking.spelled
  have after : (tree.retrieve.rows.getD best []).tail.take (tokens.length - 1) =
      ((tree.path best).tail.take (tokens.length - 1)).map Int.ofNat := by
    rw [shape, ← List.drop_one, List.drop_append_of_le_length (by rw [List.length_map]; omega),
      List.take_append_of_le_length (by rw [List.length_drop, List.length_map]; omega),
      ← List.map_drop, ← List.map_take, List.drop_one]
  have whole : current :: ((tree.spelling best).tail.take (tokens.length - 1)) = tokens := by
    conv_rhs => rw [spelled, root]
    obtain ⟨rest, length⟩ := Nat.exists_eq_add_one.mpr positive
    rw [length, List.take_succ_cons, Nat.add_sub_cancel]
  have kept : (((tree.path best).tail.take (tokens.length - 1)).map Int.ofNat).filter
      (fun index => decide (0 ≤ index)) =
        ((tree.path best).tail.take (tokens.length - 1)).map Int.ofNat := by
    apply List.filter_eq_self.mpr
    intro index member
    obtain ⟨node, _, rfl⟩ := List.mem_map.mp member
    exact decide_eq_true (Int.natCast_nonneg node)
  rw [Accepted.proposed, decided]
  dsimp only
  rw [after, kept, List.map_map, ← List.cons_append]
  congr 1
  conv_rhs => rw [← whole, Tree.spelling, Tree.tokensAt, ← List.map_tail, ← List.map_take]
  rfl

/-- What a walk is worth once the next token is drawn. -/
def settled (vocabSize : Nat) (softmax : (Nat → ℚ) → Nat → ℚ) (logits : Nat → Nat → ℚ)
    (temperature : ℚ) (tree : Tree) (current : Nat) (hidden : Nat → List H)
    (value : Option (List Nat) → ℚ) (walk : SampleWalk) : ℚ :=
  (drawNext vocabSize softmax logits temperature (sampleP softmax logits temperature tree walk)
    (nodeAt tree walk.bestCandidate (walk.acceptLength - 1))).expect (fun next =>
      value (emission current (next.map (decided tree hidden (walk.acceptLength - 1) walk.bestCandidate))))

/-- A walk along a row settles to its tokens and a draw from the weights it is left with. -/
theorem settled_average (wellFormed : tree.WellFormed current) (hidden : Nat → List H)
    (walking : tree.Walking best tokens) (hot : 0 < temperature) (value : Option (List Nat) → ℚ)
    {walk : SampleWalk} (length : walk.acceptLength = tokens.length)
    (row : walk.bestCandidate = best)
    (nonnegative : ∀ token < vocabSize, 0 ≤ sampleP softmax logits temperature tree walk token)
    (positive : 0 < ∑ token ∈ Finset.range vocabSize,
      sampleP softmax logits temperature tree walk token) :
    settled vocabSize softmax logits temperature tree current hidden value walk =
      (∑ token ∈ Finset.range vocabSize, sampleP softmax logits temperature tree walk token *
        value (some (tokens ++ [token]))) /
        ∑ token ∈ Finset.range vocabSize, sampleP softmax logits temperature tree walk token := by
  rw [settled, drawNext_average hot nonnegative positive, length, row]
  congr 1
  refine Finset.sum_congr rfl fun token _ => ?_
  have read := decided_proposed wellFormed hidden walking token
  simp only [Except.map, emission, read]

theorem sequential_idle (depths : List Nat) (walk : SampleWalk)
    (idle : ∀ depth ∈ depths, depth ≠ walk.acceptLength) :
    Law.sequential (sampleLevel vocabSize softmax logits temperature tree) depths walk = pure walk := by
  induction depths with
  | nil => rfl
  | cons depth depths ih =>
    have rest := ih fun other member => idle other (List.mem_cons_of_mem _ member)
    rw [Law.sequential, sampleLevel, if_pos (idle depth List.mem_cons_self), Law.pure_bind, rest]

/-- A walk that a level left at its tokens settles to a draw from what the rejections left. -/
theorem settled_levelWalk (wellFormed : tree.WellFormed current) (hidden : Nat → List H)
    (atRow : AtRow tree tokens best) (hot : 0 < temperature) (value : Option (List Nat) → ℚ)
    (distribution : Distribution vocabSize (rowTarget softmax logits temperature tree tokens))
    (short : tokens.length ≠ tree.retrieve.width) (rejected : List Nat)
    (positive : 0 < leftMass (rowTarget softmax logits temperature tree tokens) vocabSize rejected) :
    leftMass (rowTarget softmax logits temperature tree tokens) vocabSize rejected *
        settled vocabSize softmax logits temperature tree current hidden value
          (levelWalk (rowTarget softmax logits temperature tree tokens) vocabSize tokens best
            rejected) =
      leftSum (rowTarget softmax logits temperature tree tokens) vocabSize rejected
        (fun token => value (some (tokens ++ [token]))) := by
  have weights : sampleP softmax logits temperature tree
      (levelWalk (rowTarget softmax logits temperature tree tokens) vocabSize tokens best rejected) =
        leftShare (rowTarget softmax logits temperature tree tokens) vocabSize rejected := by
    cases rejected with
    | nil =>
      rw [sampleP, if_neg (by simp [levelWalk])]
      funext token
      rw [leftShare, distribution.leftMass_nil, div_one]
      simp [levelWalk, left, rowTarget, atRow.firstRow_eq]
    | cons token rejected =>
      rw [sampleP, if_pos ⟨rfl, short⟩]
      rfl
  have sum : ∑ token ∈ Finset.range vocabSize,
      leftShare (rowTarget softmax logits temperature tree tokens) vocabSize rejected token = 1 := by
    unfold leftShare
    rw [← Finset.sum_div]
    exact div_self positive.ne'
  have nonnegative (token : Nat) :
      0 ≤ leftShare (rowTarget softmax logits temperature tree tokens) vocabSize rejected token :=
    div_nonneg (left_nonneg distribution.nonnegative rejected token) positive.le
  rw [settled_average wellFormed hidden atRow.walking hot value rfl rfl
    (fun token _ => by rw [weights]; exact nonnegative token)
    (by rw [weights, sum]; exact one_pos), weights, sum, div_one, Finset.mul_sum, leftSum]
  refine Finset.sum_congr rfl fun token _ => ?_
  unfold leftShare
  field_simp

/-- A walk that has accepted a whole row settles to a draw from the target at its end. -/
theorem settled_whole (wellFormed : tree.WellFormed current) (hidden : Nat → List H)
    (atRow : AtRow tree tokens best) (hot : 0 < temperature) (value : Option (List Nat) → ℚ)
    (distribution : Distribution vocabSize (rowTarget softmax logits temperature tree tokens))
    (whole : tokens.length = tree.retrieve.width) (flag : Bool) (gtp : Nat → ℚ) :
    settled vocabSize softmax logits temperature tree current hidden value
        ⟨tokens.length, tokens.map Int.ofNat, best, flag, gtp⟩ =
      ∑ token ∈ Finset.range vocabSize, rowTarget softmax logits temperature tree tokens token *
        value (some (tokens ++ [token])) := by
  have weights : sampleP softmax logits temperature tree
      ⟨tokens.length, tokens.map Int.ofNat, best, flag, gtp⟩ =
        rowTarget softmax logits temperature tree tokens := by
    rw [sampleP, if_neg (by simp [whole]), rowTarget, atRow.firstRow_eq]
  rw [settled_average wellFormed hidden atRow.walking hot value rfl rfl
    (fun token _ => by rw [weights]; exact distribution.nonnegative token)
    (by rw [weights, distribution.normalised]; exact one_pos), weights, distribution.normalised,
    div_one]

/-- The levels of a walk followed by the last draw are ancestral sampling for as long as the tree
drafts the tokens. The induction is on the levels to come. -/
theorem walk_law (wellFormed : tree.WellFormed current) (hidden : Nat → List H)
    (vocabulary : ∀ token ∈ tree.tokens, token < vocabSize) (hot : 0 < temperature)
    (distribution : ∀ node, Distribution vocabSize (tempered softmax logits temperature node))
    (value : Option (List Nat) → ℚ) (count : Nat) (atRow : AtRow tree tokens best)
    (levels : tokens.length + count = tree.retrieve.width) (flag : Bool) (gtp : Nat → ℚ) :
    (Law.sequential (sampleLevel vocabSize softmax logits temperature tree)
        (List.range' tokens.length count) ⟨tokens.length, tokens.map Int.ofNat, best, flag, gtp⟩).expect
        (settled vocabSize softmax logits temperature tree current hidden value) =
      (Law.ancestral vocabSize (rowTarget softmax logits temperature tree) tree.drafts count
        tokens).expect (fun tokens => value (some tokens)) := by
  have target : Distribution vocabSize (rowTarget softmax logits temperature tree tokens) :=
    distribution _
  induction count generalizing tokens best flag gtp with
  | zero =>
    rw [List.range'_zero, Law.sequential, Law.expect_pure, Law.ancestral, Law.expect_map,
      Law.expect_multinomial, target.normalised, div_one]
    exact settled_whole wellFormed hidden atRow hot value target (by omega) flag gtp
  | succ count ih =>
    rw [List.range'_succ, Law.sequential, Law.expect_bind,
      Law.expect_ancestral _ _ _ _ _ _ target.normalised]
    refine sampleLevel_average wellFormed vocabulary target _ _
      (fun token => value (some (tokens ++ [token]))) ?_ ?_ ?_ flag gtp
    · intro row token further flag gtp
      have drafted : tree.drafts (tokens ++ [token]) = true := by
        simp only [Tree.drafts, List.any_eq_true, decide_eq_true_eq]
        exact ⟨row, List.mem_range.mpr further.walking.inside, further.walking.spelled⟩
      have later := ih further (by
        rw [List.length_append, List.length_singleton]
        omega) flag gtp (distribution _)
      rw [List.length_append, List.length_singleton, List.map_append] at later
      rw [if_pos drafted, ← later]
      rfl
    · intro rejected positive
      rw [sequential_idle _ _ fun depth member => ?_, Law.expect_pure]
      · exact settled_levelWalk wellFormed hidden atRow hot value target (by omega) rejected positive
      · have := (List.mem_range'_1.mp member).1
        simp only [levelWalk]
        omega
    · intro token _ undrafted
      rw [if_neg (by simp [undrafted])]

end walk

section verification

variable {vocabSize current : Nat} {tree : Tree} {softmax : (Nat → ℚ) → Nat → ℚ}
  {logits : Nat → Nat → ℚ} {temperature : ℚ}

/-- A result that follows the greedy choices along a root path of the tree. -/
def GreedyResult (tree : Tree) (choice : Nat → Nat) (result : Except String (Accepted H)) : Prop :=
  ∃ accepted path, result = .ok accepted ∧ accepted.OnTree tree path ∧
    accepted.Greedy tree choice path

/-- Only the token has a weight. -/
def OneHot (vocabSize : Nat) (weights : Nat → ℚ) (token : Nat) : Prop :=
  ∀ other < vocabSize, other ≠ token → weights other = 0

/-- The draw between zero and the threshold is the greedy choice: the weights it draws with, the
logits when their sum is positive and the target otherwise, leave no other token. -/
def DrawsGreedily (vocabSize : Nat) (softmax : (Nat → ℚ) → Nat → ℚ) (logits : Nat → Nat → ℚ)
    (temperature : ℚ) (node : Nat) : Prop :=
  OneHot vocabSize
    (if 0 < ∑ token ∈ Finset.range vocabSize, logits node token then logits node
      else tempered softmax logits temperature node)
    (argmaxToken vocabSize (logits node))

/-- The node where the greedy path of a tree ends. The first leaf that agrees longest with the
choices is followed as far as it agrees. -/
def greedyEnd (tree : Tree) (choice : Nat → Nat) : Nat := (acceptedPath tree choice).getLastD 0

/-- The sampled walk starts with the current token along the first row. -/
theorem startWalk_eq (wellFormed : tree.WellFormed current) :
    AtRow tree [current] 0 ∧ startWalk tree = ⟨[current].length, [current].map Int.ofNat, 0, false,
      fun _ => 0⟩ := by
  have inside : 0 < tree.retrieve.rows.length := List.length_pos_iff.mpr wellFormed.nonempty
  have spelled : [current] <+: tree.spelling 0 := by
    rw [wellFormed.spelling_root 0 inside]
    exact ⟨_, rfl⟩
  refine ⟨⟨⟨inside, by simp, spelled⟩, fun earlier before => absurd before (Nat.not_lt_zero _)⟩, ?_⟩
  have taken : (candidates tree 0).take [current].length = [current].map Int.ofNat := by
    have same := candidates_match wellFormed inside [current]
    rw [decide_eq_true spelled, beq_iff_eq] at same
    exact same
  exact congrArg (fun accepted => SampleWalk.mk 1 accepted 0 false fun _ => 0) taken

/-- Above the threshold the accepted tokens followed by the next one have the law of ancestral
sampling from the target. -/
theorem sampledVerify_law (wellFormed : tree.WellFormed current)
    (vocabulary : ∀ token ∈ tree.tokens, token < vocabSize)
    (distribution : ∀ weights, Distribution vocabSize (softmax weights)) (topk : Nat → List Nat)
    (hidden : Nat → List H) (hot : greedyThreshold < temperature) (value : Option (List Nat) → ℚ) :
    (sampledVerify 1 vocabSize softmax logits topk temperature tree hidden).expect
        (fun result => value (emission current result)) =
      (Law.ancestral vocabSize (rowTarget softmax logits temperature tree) tree.drafts
        (tree.retrieve.width - 1) [current]).expect (fun tokens => value (some tokens)) := by
  have positive : 0 < temperature := lt_trans (by norm_num [greedyThreshold]) hot
  obtain ⟨atRow, start⟩ := startWalk_eq wellFormed
  have width := wellFormed.retrieve_pos
  have law := walk_law wellFormed hidden vocabulary positive
    (fun node => distribution fun token => logits node token / temperature) value
    (tree.retrieve.width - 1) atRow (by simp; omega) false (fun _ => 0)
  rw [← law, sampledVerify, if_neg (not_le.mpr hot), Law.expect_bind, sampleWalk, start]
  simp only [Law.expect_bind, Law.expect_pure]
  rfl

theorem selected_greedy (wellFormed : tree.WellFormed current) (choice : Nat → Nat)
    (topk : Nat → List Nat) (hidden : Nat → List H) :
    (treeVerify 1 tree choice topk hidden).selectedPathIndices = (acceptedPath tree choice).map Int.ofNat := by
  obtain ⟨best, count⟩ := treeVerify_agrees wellFormed choice topk hidden
  have inside := (@bestLeaf_spec tree choice _ wellFormed).1
  obtain ⟨⟨padding, shape⟩, -, -⟩ := wellFormed.row_path _ inside
  have onPath : agreement tree choice (bestLeaf tree choice) + 1 ≤
      ((tree.path (bestLeaf tree choice)).map Int.ofNat).length := by
    rw [List.length_map]
    exact agreement_lt wellFormed inside
  have selected : (treeVerify 1 tree choice topk hidden).selectedPathIndices =
      ((tree.retrieve.rows.getD (treeVerify 1 tree choice topk hidden).bestCandidate []).take
        ((treeVerify 1 tree choice topk hidden).acceptLength + 1)).filter (fun index => 0 ≤ index) := rfl
  rw [selected, best, count, shape, List.take_append_of_le_length onPath, ← List.map_take, ← acceptedPath]
  exact List.filter_eq_self.mpr (by simp)

/-- The greedy branch reads the target where the greedy path ends. -/
theorem nodeAt_greedyEnd (wellFormed : tree.WellFormed current) (choice : Nat → Nat)
    (topk : Nat → List Nat) (hidden : Nat → List H) :
    nodeAt tree (treeVerify 1 tree choice topk hidden).bestCandidate
      (treeVerify 1 tree choice topk hidden).acceptLength = greedyEnd tree choice := by
  obtain ⟨best, count⟩ := treeVerify_agrees wellFormed choice topk hidden
  obtain ⟨⟨padding, shape⟩, -, -⟩ := wellFormed.row_path _ (@bestLeaf_spec tree choice _ wellFormed).1
  have last := @acceptedPath_last tree choice _ wellFormed
  have inside := (List.getElem?_eq_some_iff.mp last).1
  rw [best, count, nodeAt, safeRow, shape, List.getD_eq_getElem?_getD, List.getElem?_map,
    List.getElem?_append_left (by rwa [List.length_map]), List.getElem?_map, last]
  rfl

/-- A result of the greedy branch is greedy exactly when its next token is the choice at the end
of the path. -/
theorem greedyResult_iff (wellFormed : tree.WellFormed current) (topk : Nat → List Nat)
    (hidden : Nat → List H) (next : Nat) :
    GreedyResult tree (fun node => argmaxToken vocabSize (logits node))
        (.ok { treeVerify 1 tree (fun node => argmaxToken vocabSize (logits node)) topk hidden with
          nextToken := next }) ↔
      next = argmaxToken vocabSize (logits (greedyEnd tree fun node => argmaxToken vocabSize (logits node))) := by
  obtain ⟨path, onTree, greedy⟩ := treeVerify_spec tree current
    (fun node => argmaxToken vocabSize (logits node)) topk hidden wellFormed
  have onPath : path = acceptedPath tree (fun node => argmaxToken vocabSize (logits node)) :=
    (List.map_injective_iff.mpr fun _ _ => Int.ofNat.inj)
      (onTree.indices.symm.trans (selected_greedy wellFormed _ topk hidden))
  have last : path.getLast? = some (greedyEnd tree fun node => argmaxToken vocabSize (logits node)) := by
    rw [greedyEnd, ← onPath, List.getLastD_eq_getLast?]
    cases shape : path.getLast? with
    | none =>
      have positive : 0 < path.length := onTree.length ▸ Nat.succ_pos _
      exact absurd (List.getLast?_eq_none_iff.mp shape) (List.ne_nil_of_length_pos positive)
    | some node => rfl
  constructor
  · rintro ⟨accepted, path', same, onTree', greedy'⟩
    obtain rfl := Except.ok.inj same
    have indices : path'.map Int.ofNat = path.map Int.ofNat :=
      onTree'.indices.symm.trans onTree.indices
    obtain rfl := (List.map_injective_iff.mpr fun _ _ => Int.ofNat.inj) indices
    exact greedy'.next _ last
  · rintro rfl
    refine ⟨_, path, rfl, ⟨onTree.indices, onTree.length, onTree.root, onTree.inside, onTree.tokens,
      onTree.prefixes⟩, greedy.chosen, fun node ends => ?_⟩
    rw [last] at ends
    obtain rfl := Option.some.inj ends
    rfl

/-- A draw with weights that are not negative is surely good when every token of some weight is. -/
theorem surely_torchMultinomial {weights : Nat → ℚ} (nonnegative : ∀ token < vocabSize, 0 ≤ weights token)
    (mass : ∑ token ∈ Finset.range vocabSize, weights token ≠ 0) (good : Except String Nat → Prop) :
    (torchMultinomial vocabSize weights).Surely good ↔
      ∀ token < vocabSize, weights token ≠ 0 → good (.ok token) := by
  have genuine : ¬(List.range vocabSize).any (fun token => weights token < 0) = true := by
    rw [List.any_eq_true]
    rintro ⟨token, listed, negative⟩
    exact absurd (nonnegative token (List.mem_range.mp listed)) (not_le.mpr (of_decide_eq_true negative))
  rw [torchMultinomial, if_neg genuine, Law.surely_map, Law.surely_multinomial _ _ mass]

/-- Between zero and the threshold the draw of the next token is surely the greedy choice exactly
when no other token has a weight. A negative weight is an error, never a choice. -/
theorem surely_drawNext (distribution : ∀ weights, Distribution vocabSize (softmax weights))
    (positive : 0 < temperature) (node : Nat) (good : Except String Nat → Prop)
    (greedy : ∀ token, good (.ok token) ↔ token = argmaxToken vocabSize (logits node))
    (failed : ∀ message, ¬good (.error message)) :
    (drawNext vocabSize softmax logits temperature (logits node) node).Surely good ↔
      DrawsGreedily vocabSize softmax logits temperature node := by
  have oneHot (weights : Nat → ℚ) :
      (∀ token < vocabSize, weights token ≠ 0 → good (.ok token)) ↔
        OneHot vocabSize weights (argmaxToken vocabSize (logits node)) := by
    refine forall₂_congr fun token _ => ?_
    rw [greedy, not_imp_comm]
  rw [drawNext, if_pos positive, DrawsGreedily]
  split
  next mass =>
    by_cases negative : ∃ token < vocabSize, logits node token < 0
    · have failing : (List.range vocabSize).any (fun token => logits node token < 0) = true := by
        rw [List.any_eq_true]
        obtain ⟨token, inside, below⟩ := negative
        exact ⟨token, List.mem_range.mpr inside, decide_eq_true below⟩
      rw [torchMultinomial, if_pos failing, Law.surely_pure]
      refine iff_of_false (failed _) fun alone => ?_
      obtain ⟨token, inside, below⟩ := negative
      have top : token = argmaxToken vocabSize (logits node) := by
        by_contra different
        exact below.ne (alone token inside different)
      have sum : ∑ other ∈ Finset.range vocabSize, logits node other = logits node token :=
        Finset.sum_eq_single_of_mem token (Finset.mem_range.mpr inside)
          fun other member different => alone other (Finset.mem_range.mp member) (top ▸ different)
      linarith
    · have nonnegative : ∀ token < vocabSize, 0 ≤ logits node token := by
        intro token inside
        by_contra below
        exact negative ⟨token, inside, not_le.mp below⟩
      rw [surely_torchMultinomial nonnegative mass.ne', oneHot]
  next =>
    have target : Distribution vocabSize (tempered softmax logits temperature node) := distribution _
    have mass : ∑ token ∈ Finset.range vocabSize, tempered softmax logits temperature node token ≠ 0 := by
      rw [target.normalised]
      exact one_ne_zero
    rw [surely_torchMultinomial (fun token _ => target.nonnegative token) mass, oneHot]

/-- The verification follows the target at a temperature: above the threshold its tokens have the
law of ancestral sampling, up to it they are surely the greedy choices. -/
def FollowsTarget (vocabSize : Nat) (softmax : (Nat → ℚ) → Nat → ℚ) (logits : Nat → Nat → ℚ)
    (temperature : ℚ) (tree : Tree) (current : Nat) (law : Law (Except String (Accepted H))) : Prop :=
  if temperature ≤ greedyThreshold then
    law.Surely (GreedyResult tree (fun node => argmaxToken vocabSize (logits node)))
  else ∀ value : Option (List Nat) → ℚ,
    law.expect (fun result => value (emission current result)) =
      (Law.ancestral vocabSize (rowTarget softmax logits temperature tree) tree.drafts
        (tree.retrieve.width - 1) [current]).expect (fun tokens => value (some tokens))

end verification

/-- Up to the threshold the results are surely greedy exactly when the temperature is zero or the
draw at the end of the greedy path leaves no other token. -/
theorem sampledVerify_cold_iff {vocabSize current : Nat} {tree : Tree}
    {softmax : (Nat → ℚ) → Nat → ℚ} (logits : Nat → Nat → ℚ) {temperature : ℚ}
    (topk : Nat → List Nat) (hidden : Nat → List H) (wellFormed : tree.WellFormed current)
    (distribution : ∀ weights, Distribution vocabSize (softmax weights))
    (nonnegative : 0 ≤ temperature) (cold : temperature ≤ greedyThreshold) :
    (sampledVerify 1 vocabSize softmax logits topk temperature tree hidden).Surely
        (GreedyResult tree (fun node => argmaxToken vocabSize (logits node))) ↔
      (0 < temperature → DrawsGreedily vocabSize softmax logits temperature
        (greedyEnd tree fun node => argmaxToken vocabSize (logits node))) := by
  -- the selected row is that of temperature zero, so only the next token can go wrong
  have good (token : Nat) : GreedyResult tree (fun node => argmaxToken vocabSize (logits node))
        (.ok { treeVerify 1 tree (fun node => argmaxToken vocabSize (logits node)) topk hidden with
          nextToken := token }) ↔
      token = argmaxToken vocabSize (logits (greedyEnd tree fun node => argmaxToken vocabSize (logits node))) :=
    greedyResult_iff wellFormed topk hidden token
  have ends := nodeAt_greedyEnd wellFormed (fun node => argmaxToken vocabSize (logits node)) topk hidden
  rw [sampledVerify, if_pos cold, Law.surely_map, ends]
  rcases nonnegative.eq_or_lt with zero | positive
  · rw [← zero, drawNext, if_neg (lt_irrefl 0), Law.surely_pure]
    exact iff_of_true ((good _).mpr rfl) fun above => absurd above (lt_irrefl 0)
  · rw [surely_drawNext distribution positive _ _ good]
    · exact ⟨fun drawn _ => drawn, fun drawn => drawn positive⟩
    · rintro message ⟨accepted, path, same, -⟩
      cases same

/-- The verification follows the target at every temperature that is zero or above the threshold,
and at the other temperatures exactly when the draw at the end of the greedy path leaves no token
but the greedy choice. -/
theorem sampledVerify_follows_iff {vocabSize current : Nat} {tree : Tree}
    {softmax : (Nat → ℚ) → Nat → ℚ} (logits : Nat → Nat → ℚ) {temperature : ℚ}
    (topk : Nat → List Nat) (hidden : Nat → List H) (wellFormed : tree.WellFormed current)
    (vocabulary : ∀ token ∈ tree.tokens, token < vocabSize)
    (distribution : ∀ weights, Distribution vocabSize (softmax weights))
    (nonnegative : 0 ≤ temperature) :
    FollowsTarget vocabSize softmax logits temperature tree current
        (sampledVerify 1 vocabSize softmax logits topk temperature tree hidden) ↔
      (0 < temperature → temperature ≤ greedyThreshold →
        DrawsGreedily vocabSize softmax logits temperature
          (greedyEnd tree fun node => argmaxToken vocabSize (logits node))) := by
  unfold FollowsTarget
  split
  next cold =>
    rw [sampledVerify_cold_iff logits topk hidden wellFormed distribution nonnegative cold]
    exact ⟨fun drawn positive _ => drawn positive, fun drawn positive => drawn positive cold⟩
  next hot =>
    have above := not_le.mp hot
    exact iff_of_true (fun value => sampledVerify_law wellFormed vocabulary distribution topk hidden
      above value) fun _ cold => absurd cold hot

/-- The softmax of two logits that are equal, or so far apart that the lower one underflows. -/
def sharpSoftmax (weights : Nat → ℚ) (token : Nat) : ℚ :=
  if weights 0 = weights 1 then (if token < 2 then 1 / 2 else 0)
  else if token = (if weights 0 < weights 1 then 1 else 0) then 1 else 0

theorem sharpSoftmax_distribution (weights : Nat → ℚ) : Distribution 2 (sharpSoftmax weights) where
  nonnegative := by
    intro token
    unfold sharpSoftmax
    split_ifs <;> norm_num
  normalised := by
    rw [Finset.sum_range_succ, Finset.sum_range_one]
    by_cases equal : weights 0 = weights 1
    · norm_num [sharpSoftmax, equal]
    · by_cases above : weights 0 < weights 1 <;> simp [sharpSoftmax, equal, above]

/-- Two children of the root, and one below the second of them. -/
def twoLevels : Tree where
  tokens := [0, 0, 1, 1]
  mask := [[true, false, false, false], [true, true, false, false], [true, false, true, false],
    [true, false, true, true]]
  depths := [0, 1, 1, 2]
  retrieve := ⟨[[0, 2, 3], [0, 1, -1]], 3, by decide⟩

example : greedyEnd twoLevels (fun _ => 1) = 3 := by decide

/-- On a tree of two levels the verification follows the target at temperature one with equal
logits, and below the threshold with logits that leave the other token no weight. -/
theorem sampledVerify_follows_iff_levels :
    FollowsTarget 2 sharpSoftmax (fun _ _ => 0) 1 twoLevels 0
        (sampledVerify 1 2 sharpSoftmax (fun _ _ => 0) (fun _ => []) 1 twoLevels
          (fun _ => ([] : List Unit))) ∧
      FollowsTarget 2 sharpSoftmax (fun _ token => token) (1 / 200000) twoLevels 0
        (sampledVerify 1 2 sharpSoftmax (fun _ token => token) (fun _ => []) (1 / 200000) twoLevels
          (fun _ => ([] : List Unit))) := by
  have wellFormed : twoLevels.WellFormed 0 := Tree.checked_wellFormed _ _ (by decide)
  constructor
  · exact (sampledVerify_follows_iff (fun _ _ => 0) (fun _ => []) (fun _ => []) wellFormed (by decide)
      sharpSoftmax_distribution (by norm_num)).mpr fun _ cold => absurd cold (by norm_num [greedyThreshold])
  · refine (sampledVerify_follows_iff (fun _ token => (token : ℚ)) (fun _ => []) (fun _ => []) wellFormed
      (by decide) sharpSoftmax_distribution (by norm_num)).mpr fun _ _ token inside other => ?_
    have choice : argmaxToken 2 (fun token => (token : ℚ)) = 1 := by decide +kernel
    have mass : 0 < ∑ token ∈ Finset.range 2, (token : ℚ) := by decide +kernel
    rw [choice] at other
    obtain rfl : token = 0 := by omega
    rw [if_pos mass]
    exact Nat.cast_zero

/-- Between zero and the threshold the logits one and three draw the first token with a quarter
of the weight, although the second one is the greedy choice. -/
theorem sampledVerify_strays :
    ¬FollowsTarget 2 sharpSoftmax (fun _ token => 2 * token + 1) (1 / 200000) (Tree.pair 0 1) 0
      (sampledVerify 1 2 sharpSoftmax (fun _ token => 2 * token + 1) (fun _ => []) (1 / 200000)
        (Tree.pair 0 1) (fun _ => ([] : List Unit))) := by
  have cold : (1 / 200000 : ℚ) ≤ greedyThreshold := by norm_num [greedyThreshold]
  rw [FollowsTarget, if_pos cold, sampledVerify_cold_iff _ _ _ (Tree.pair_wellFormed 0 1)
    sharpSoftmax_distribution (by norm_num) cold]
  intro drawn
  have alone := drawn (by norm_num) 0 (by decide)
  have choice : argmaxToken 2 (fun token => 2 * (token : ℚ) + 1) = 1 := by decide +kernel
  rw [choice] at alone
  have mass : 0 < ∑ token ∈ Finset.range 2, (2 * (token : ℚ) + 1) := by decide +kernel
  rw [if_pos mass] at alone
  exact absurd (alone (by decide)) (by norm_num)

end SpecBlock.Single
