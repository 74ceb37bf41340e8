import Mathlib.Algebra.Ring.Nat
import Mathlib.Data.List.Nodup
import Mathlib.Data.List.Perm.Subperm
import Mathlib.Data.List.TakeDrop
import SpecBlock.Foundation.Autoregressive
import SpecBlock.Batch.Trees

/-!
# Greedy acceptance over a padded request batch

`_accept_active_batch` pads every request's retrieve rows to one shape, scores
each row by the number of leading draft tokens that agree with the target's
choice at the previous node, and takes the first best row. The target's choice
at the end of the accepted path becomes the next token.

Padded entries select a `-1` sentinel token, which agrees with no target choice,
so an accepted path never leaves the real part of its row. `acceptRow_spec`
states this for every acceptance width and adds, for `ACCEPT_TOPK = 1`, that the
path spells target choices. This module decides one row; `Verification` decides
the batch.
-/

namespace SpecBlock.Batch

variable {H : Type}

/-- Per-request acceptance data returned to the decode loop. -/
structure Accepted (H : Type) where
  acceptLength : Nat
  acceptedTokenIds : List Nat
  nextToken : Nat
  hidden : List (List H)
  bestCandidate : Nat
  selectedPathIndices : List Int

/-- `torch.cumprod` of agreement flags, carrying the product so far. -/
def cumprod : Nat → List Nat → List Nat
  | _, [] => []
  | product, flag :: rest => (product * flag) :: cumprod (product * flag) rest

/-- Number of leading agreements, as the source computes it. -/
def leadingAgreements (posterior : List Bool) : Nat :=
  (cumprod 1 (posterior.map Bool.toNat)).sum

theorem cumprod_zero (flags : List Nat) : (cumprod 0 flags).sum = 0 := by
  induction flags with
  | nil => rfl
  | cons flag rest ih => simpa [cumprod] using ih

/-- The summed running product counts the flags before the first failure. -/
theorem leadingAgreements_eq (posterior : List Bool) :
    leadingAgreements posterior = (posterior.takeWhile id).length := by
  induction posterior with
  | nil => rfl
  | cons flag rest ih =>
    cases flag with
    | false => simp [leadingAgreements, cumprod, cumprod_zero]
    | true =>
      have tail : (cumprod 1 (rest.map Bool.toNat)).sum = (rest.takeWhile id).length :=
        ih
      simp [leadingAgreements, cumprod, tail, Nat.add_comm]

theorem agreement_of_lt (posterior : List Bool) (position : Nat)
    (before : position < leadingAgreements posterior) : posterior[position]? = some true := by
  induction posterior generalizing position with
  | nil => simp [leadingAgreements_eq] at before
  | cons flag rest ih =>
    cases flag with
    | false => simp [leadingAgreements_eq] at before
    | true =>
      cases position with
      | zero => rfl
      | succ position =>
        apply ih
        simpa [leadingAgreements_eq] using before

/-- Draft tokens along a padded row; padding selects the appended `-1`. -/
def candidateRow (treeWidth : Nat) (inputIds : List Nat) (row : List Int) : List Int :=
  row.map (fun index => (inputIds.map Int.ofNat ++ [-1]).getD
    (if 0 ≤ index then index.toNat else treeWidth) (-1))

/-- Padding reads the request's own last node instead of leaving the row. -/
def safeRow (lastNode : Nat) (row : List Int) : List Nat :=
  row.map (fun index => if 0 ≤ index then index.toNat else lastNode)

/-- Agreement of each draft token with the target's choice (or its top choices)
at the previous node of the row. -/
def posterior (acceptTopk lastNode treeWidth : Nat) (inputIds argmax : List Nat)
    (topk : List (List Nat)) (row : List Int) : List Bool :=
  let previous := (safeRow lastNode row).dropLast
  let drafted := (candidateRow treeWidth inputIds row).tail
  if 1 < acceptTopk then
    drafted.zipWith (fun token (choices : List Nat) =>
        choices.any (fun choice => token == (choice : Int)))
      (previous.map (fun node => topk.getD node []))
  else
    drafted.zipWith (fun token (choice : Nat) => token == (choice : Int))
      (previous.map (fun node => argmax.getD node 0))

/-- Staged tokens after the root of the selected path, `-1` past its accepted part. -/
def acceptedTokenRow (inputIds : List Nat) (acceptLength : Nat) (selectedPath : List Int) :
    List Int :=
  selectedPath.tail.mapIdx (fun position (index : Int) =>
    if position < acceptLength ∧ 0 ≤ index then ((inputIds.getD index.toNat 0 : Nat) : Int) else -1)

/-- Read one request's tokens, next token and hidden states off its selected path. -/
def acceptSelected (inputIds argmax : List Nat) (hiddenSources : List (List H))
    (acceptLength bestCandidate : Nat) (selectedPath : List Int) : Except String (Accepted H) :=
  let acceptedTokens := (acceptedTokenRow inputIds acceptLength selectedPath).take acceptLength
  let selectedHidden := selectedPath.map (fun (index : Int) =>
    hiddenSources.filterMap (fun source => source[index.toNat]?))
  if selectedPath.getD 0 (-1) < 0 then
    .error "accepted path contains padded tree indices"
  else if acceptedTokens.any (fun token => token < 0) then
    .error "accepted path contains padded token metadata"
  else
    .ok { acceptLength := acceptLength
          acceptedTokenIds := acceptedTokens.map Int.toNat
          nextToken := argmax.getD (selectedPath.getD acceptLength (-1)).toNat 0
          hidden := selectedHidden.take (acceptLength + 1)
          bestCandidate := bestCandidate
          selectedPathIndices := selectedPath.take (acceptLength + 1) }

/-- Accepted length of every padded retrieve row. -/
def pathAcceptLengths (acceptTopk lastNode treeWidth : Nat) (inputIds argmax : List Nat)
    (topk : List (List Nat)) (retrieve : List (List Int)) : List Nat :=
  retrieve.map (fun row =>
    leadingAgreements (posterior acceptTopk lastNode treeWidth inputIds argmax topk row))

/-- One request's row of `_accept_active_batch`, after the batch-wide padding. -/
def acceptRow (acceptTopk treeWidth maxPaths maxPathWidth : Nat) (tree : Tree)
    (inputIds argmax : List Nat) (topk : List (List Nat)) (hiddenSources : List (List H)) :
    Except String (Accepted H) :=
  let retrieve := padRetrieve maxPaths maxPathWidth tree.retrieve
  let lengths :=
    pathAcceptLengths acceptTopk (tree.width - 1) treeWidth inputIds argmax topk retrieve
  let bestCandidate := argmaxFirst lengths
  acceptSelected inputIds argmax hiddenSources (maximum lengths) bestCandidate
    (retrieve.getD bestCandidate [])

/-- The accepted tokens and the next token. -/
def Accepted.proposed (accepted : Accepted H) : List Nat :=
  accepted.acceptedTokenIds ++ [accepted.nextToken]

/-- The accepted part of a row is a root path of the request's own tree, and
the accepted tokens are the ones that path drafts. -/
structure Accepted.OnTree (accepted : Accepted H) (tree : Tree) (path : List Nat) : Prop where
  indices : accepted.selectedPathIndices = path.map Int.ofNat
  length : path.length = accepted.acceptLength + 1
  root : path.head? = some 0
  inside : ∀ node ∈ path, node < tree.width
  tokens : accepted.acceptedTokenIds = tree.tokensAt path.tail
  prefixes : ∀ position node, path[position]? = some node →
    tree.rootPath node = some (path.take (position + 1))

/-- Each accepted token is the target's choice at its parent, and so is the
next token at the end of the path. -/
structure Accepted.Greedy (accepted : Accepted H) (tree : Tree) (choice : Nat → Nat)
    (path : List Nat) : Prop where
  chosen : ∀ position parent child, path[position]? = some parent →
    path[position + 1]? = some child → tree.tokens.getD child 0 = choice parent
  next : ∀ node, path.getLast? = some node → accepted.nextToken = choice node

theorem Accepted.OnTree.tokens_length {accepted : Accepted H} {tree : Tree} {path : List Nat}
    (onTree : accepted.OnTree tree path) :
    accepted.acceptedTokenIds.length = accepted.acceptLength := by
  rw [onTree.tokens, Tree.tokensAt, List.length_map, List.length_tail, onTree.length,
    Nat.add_sub_cancel]

/-- An accepted path spells the current token and then the accepted tokens. -/
theorem Accepted.OnTree.spelled {accepted : Accepted H} {tree : Tree} {path : List Nat}
    {current : Nat} (onTree : accepted.OnTree tree path) (wellFormed : tree.WellFormed current) :
    tree.tokensAt path = current :: accepted.acceptedTokenIds := by
  have root := onTree.root
  have token := wellFormed.root
  cases path with
  | nil => simp at root
  | cons node rest =>
    obtain rfl : node = 0 := by simpa using root
    rw [List.head?_eq_getElem?] at token
    simp [onTree.tokens, Tree.tokensAt, token]

theorem zipWith_true {σ : Type} (drafted : List Int) (choices : List σ) (agree : Int → σ → Bool)
    (position : Nat) (flag : (drafted.zipWith agree choices)[position]? = some true) :
    ∃ token choice, drafted[position]? = some token ∧ choices[position]? = some choice ∧
      agree token choice = true := by
  rw [List.getElem?_zipWith] at flag
  cases read : drafted[position]? with
  | none => simp [read] at flag
  | some token =>
    cases chosen : choices[position]? with
    | none => simp [read, chosen] at flag
    | some choice => exact ⟨token, choice, rfl, rfl, by simpa [read, chosen] using flag⟩

section row

variable (acceptTopk lastNode treeWidth : Nat) (inputIds argmax : List Nat)
  (topk : List (List Nat)) (row : List Int)

/-- An agreement is between a genuine draft token and a target choice. -/
theorem posterior_real (position : Nat)
    (flag : (posterior acceptTopk lastNode treeWidth inputIds argmax topk row)[position]? = some true) :
    ∃ token : Nat, (candidateRow treeWidth inputIds row)[position + 1]? = some (token : Int) := by
  unfold posterior at flag
  split at flag
  · obtain ⟨token, choices, drafted, -, agreed⟩ := zipWith_true _ _ _ position flag
    obtain ⟨choice, -, same⟩ := List.any_eq_true.mp agreed
    have equal : token = (choice : Int) := by simpa using same
    exact ⟨choice, by simpa [equal] using drafted⟩
  · obtain ⟨token, choice, drafted, -, agreed⟩ := zipWith_true _ _ _ position flag
    have equal : token = (choice : Int) := by simpa using agreed
    exact ⟨choice, by simpa [equal] using drafted⟩

/-- With strict acceptance the choice is the target's argmax at the parent. -/
theorem posterior_strict (strict : acceptTopk = 1) (position : Nat)
    (flag : (posterior acceptTopk lastNode treeWidth inputIds argmax topk row)[position]? = some true) :
    ∃ parent, (safeRow lastNode row)[position]? = some parent ∧
      (candidateRow treeWidth inputIds row)[position + 1]? = some ((argmax.getD parent 0 : Nat) : Int) := by
  subst strict
  simp only [posterior, Nat.lt_irrefl, if_false] at flag
  obtain ⟨token, choice, drafted, chosen, agreed⟩ := zipWith_true _ _ _ position flag
  have equal : token = (choice : Int) := by simpa using agreed
  rw [List.getElem?_map] at chosen
  obtain ⟨parent, read, rfl⟩ := Option.map_eq_some_iff.mp chosen
  have kept : (safeRow lastNode row)[position]? = some parent := by
    rw [List.getElem?_dropLast] at read
    split at read
    · exact read
    · simp at read
  exact ⟨parent, kept, by simpa [equal] using drafted⟩

end row

/-- A sentinel position drafts `-1`, whatever the staged tokens are. -/
theorem candidate_padding (treeWidth : Nat) (inputIds : List Nat) (row : List Int)
    (position : Nat) (index : Int) (staged : inputIds.length = treeWidth)
    (read : row[position]? = some index) (padding : index < 0) :
    (candidateRow treeWidth inputIds row)[position]? = some (-1) := by
  have past : ¬ 0 ≤ index := by omega
  simp [candidateRow, List.getElem?_map, read, past, List.getD_eq_getElem?_getD, ← staged]

theorem candidate_node (treeWidth : Nat) (inputIds : List Nat) (row : List Int)
    (position node : Nat) (inside : node < inputIds.length)
    (read : row[position]? = some (node : Int)) :
    (candidateRow treeWidth inputIds row)[position]? = some ((inputIds.getD node 0 : Nat) : Int) := by
  simp [candidateRow, List.getElem?_map, read, List.getD_eq_getElem?_getD,
    List.getElem?_append_left, inside]

section score

variable (acceptTopk lastNode treeWidth : Nat) (inputIds argmax : List Nat) (topk : List (List Nat))
  (staged : inputIds.length = treeWidth)
include staged

/-- A row is never accepted past its last real node: the agreement there would
have to match the sentinel. -/
theorem score_lt (path : List Nat) (padding : Nat) (nonempty : path ≠ []) :
    leadingAgreements (posterior acceptTopk lastNode treeWidth inputIds argmax topk
      (path.map Int.ofNat ++ List.replicate padding (-1))) < path.length := by
  have positive : 0 < path.length := List.length_pos_iff.mpr nonempty
  by_contra beyond
  obtain ⟨token, drafted⟩ := posterior_real acceptTopk lastNode treeWidth inputIds argmax topk
    (path.map Int.ofNat ++ List.replicate padding (-1)) (path.length - 1)
    (agreement_of_lt _ (path.length - 1) (by omega))
  rw [Nat.sub_add_cancel positive] at drafted
  cases padding with
  | zero => simp [candidateRow] at drafted
  | succ padding =>
    have sentinel := candidate_padding treeWidth inputIds
      (path.map Int.ofNat ++ List.replicate (padding + 1) (-1)) path.length (-1) staged
      (by simp) (by decide)
    have impossible : (-1 : Int) = (token : Int) := Option.some.inj (sentinel.symm.trans drafted)
    omega

theorem score_padding (width : Nat) :
    leadingAgreements (posterior acceptTopk lastNode treeWidth inputIds argmax topk
      (List.replicate width (-1))) = 0 := by
  by_contra positive
  obtain ⟨token, drafted⟩ := posterior_real acceptTopk lastNode treeWidth inputIds argmax topk _ 0
    (agreement_of_lt _ 0 (Nat.pos_of_ne_zero positive))
  by_cases inside : 1 < width
  · have sentinel := candidate_padding treeWidth inputIds (List.replicate width (-1)) 1 (-1) staged
      (by simp [inside]) (by decide)
    have impossible : (-1 : Int) = (token : Int) := Option.some.inj (sentinel.symm.trans drafted)
    omega
  · simp [candidateRow, inside] at drafted

/-- The first best row is a real one, accepted strictly inside its path. -/
theorem selected_real (tree : Tree) (current maxPaths maxPathWidth : Nat)
    (wellFormed : tree.WellFormed current) :
    let retrieve := padRetrieve maxPaths maxPathWidth tree.retrieve
    let scores := pathAcceptLengths acceptTopk lastNode treeWidth inputIds argmax topk retrieve
    ∃ row ∈ tree.retrieve.rows, ∃ path : List Nat, ∃ padding : Nat, ∃ more : Nat,
      row = path.map Int.ofNat ++ List.replicate padding (-1) ∧
      path.head? = some 0 ∧ (∀ node ∈ path, node < tree.width) ∧
      retrieve.getD (argmaxFirst scores) [] = row ++ List.replicate more (-1) ∧
      maximum scores < path.length ∧
      leadingAgreements (posterior acceptTopk lastNode treeWidth inputIds argmax topk
        (row ++ List.replicate more (-1))) = maximum scores := by
  intro retrieve scores
  have some_row : 0 < tree.retrieve.rows.length := List.length_pos_iff.mpr wellFormed.nonempty
  have scored : scores ≠ [] := by
    simp [scores, pathAcceptLengths, retrieve, padRetrieve, wellFormed.nonempty]
  obtain ⟨best, read, score⟩ : ∃ row, retrieve[argmaxFirst scores]? = some row ∧
      leadingAgreements (posterior acceptTopk lastNode treeWidth inputIds argmax topk row) =
        maximum scores := by
    have attained := argmaxFirst_spec scores scored
    simpa only [scores, pathAcceptLengths, List.getElem?_map, Option.map_eq_some_iff] using attained
  -- A padding row scores zero, and then the first row, which is real, wins.
  have real : argmaxFirst scores < tree.retrieve.rows.length := by
    by_contra beyond
    have padded : best = List.replicate maxPathWidth (-1) := by
      simp only [retrieve, padRetrieve] at read
      rw [List.getElem?_append_right (by simpa using beyond)] at read
      exact List.eq_of_mem_replicate (List.mem_of_getElem? read)
    have zero : maximum scores = 0 := by
      rw [← score, padded]
      exact score_padding acceptTopk lastNode treeWidth inputIds argmax topk staged maxPathWidth
    exact beyond (argmaxFirst_zero scores zero ▸ some_row)
  obtain ⟨row, member, extended⟩ : ∃ row ∈ tree.retrieve.rows,
      row ++ List.replicate (maxPathWidth - tree.retrieve.width) (-1) = best := by
    simp only [retrieve, padRetrieve] at read
    rw [List.getElem?_append_left (by simpa using real)] at read
    exact List.mem_map.mp (List.mem_of_getElem? read)
  obtain ⟨path, padding, shape, root, inside⟩ := wellFormed.rows row member
  have nonempty : path ≠ [] := by
    rintro rfl
    simp at root
  refine ⟨row, member, path, padding, maxPathWidth - tree.retrieve.width, shape, root, inside, ?_, ?_, ?_⟩
  · simp [List.getD_eq_getElem?_getD, read, extended]
  · rw [← score, ← extended, shape, List.append_assoc, List.replicate_append_replicate]
    exact score_lt acceptTopk lastNode treeWidth inputIds argmax topk staged path _ nonempty
  · rw [extended, score]

end score

/-- The accepted-token row of a real path reads the staged tokens after its root. -/
theorem acceptedTokenRow_real (inputIds path : List Nat) (padding count : Nat)
    (inside : count < path.length) :
    (acceptedTokenRow inputIds count
        (path.map Int.ofNat ++ List.replicate padding (-1))).take count =
      (path.tail.take count).map (fun node => ((inputIds.getD node 0 : Nat) : Int)) := by
  apply List.ext_getElem?
  intro position
  by_cases counted : position < count
  · have bound : position + 1 < path.length := by omega
    simp [acceptedTokenRow, counted, List.getElem?_append_left, bound]
  · rw [List.getElem?_take, if_neg counted, List.getElem?_map, List.getElem?_take, if_neg counted]
    rfl

theorem acceptSelected_real (inputIds argmax : List Nat) (hiddenSources : List (List H))
    (count best padding : Nat) (path : List Nat) (inside : count < path.length)
    (root : path.head? = some 0) :
    ∃ accepted,
      acceptSelected inputIds argmax hiddenSources count best
        (path.map Int.ofNat ++ List.replicate padding (-1)) = .ok accepted ∧
      accepted.acceptLength = count ∧
      accepted.acceptedTokenIds = (path.tail.take count).map (fun node => inputIds.getD node 0) ∧
      accepted.nextToken = argmax.getD path[count] 0 ∧
      accepted.selectedPathIndices = (path.take (count + 1)).map Int.ofNat := by
  have first : (path.map Int.ofNat ++ List.replicate padding (-1)).getD 0 (-1) = 0 := by
    cases path with
    | nil => simp at root
    | cons node rest => simpa using root
  have ended : (path.map Int.ofNat ++ List.replicate padding (-1)).getD count (-1) =
      ((path[count] : Nat) : Int) := by
    simp [List.getD_eq_getElem?_getD, List.getElem?_append_left, inside]
  unfold acceptSelected
  simp only [acceptedTokenRow_real inputIds path padding count inside, first, ended]
  have genuine : ¬ ((path.tail.take count).map
      (fun node => ((inputIds.getD node 0 : Nat) : Int))).any (fun token => token < 0) = true := by
    simp only [List.any_map, List.any_eq_true, not_exists, not_and, Function.comp_apply,
      decide_eq_true_eq, Int.not_lt]
    exact fun node _ => Int.natCast_nonneg _
  rw [if_neg (by decide), if_neg genuine]
  refine ⟨_, rfl, rfl, ?_, rfl, ?_⟩
  · rw [List.map_map]
    exact List.map_congr_left (fun node _ => Int.toNat_natCast _)
  · have fits : count + 1 ≤ (path.map Int.ofNat).length := by
      rw [List.length_map]
      exact inside
    simp only [List.map_take, List.take_append_of_le_length fits]

/-- Every decision is well formed, and a strict one spells the target's choices.
The selected row is real by `selected_real`; each of its counted positions is an
agreement between neighbouring nodes. -/
theorem acceptRow_spec (acceptTopk treeWidth maxPaths maxPathWidth : Nat) (tree : Tree)
    (current : Nat) (inputIds argmax : List Nat) (topk : List (List Nat))
    (hiddenSources : List (List H)) (wellFormed : tree.WellFormed current)
    (staged : inputIds.length = treeWidth) (fits : tree.width ≤ treeWidth)
    (tokens : ∀ node < tree.width, inputIds.getD node 0 = tree.tokens.getD node 0) :
    ∃ accepted path,
      acceptRow acceptTopk treeWidth maxPaths maxPathWidth tree inputIds argmax topk
        hiddenSources = .ok accepted ∧
      accepted.OnTree tree path ∧
      (acceptTopk = 1 → accepted.Greedy tree (fun node => argmax.getD node 0) path) := by
  obtain ⟨row, member, path, padding, more, shape, root, inside, selected, strictly, score⟩ :=
    selected_real acceptTopk (tree.width - 1) treeWidth inputIds argmax topk staged tree current
      maxPaths maxPathWidth wellFormed
  simp only [acceptRow]
  generalize pathAcceptLengths acceptTopk (tree.width - 1) treeWidth inputIds argmax topk
    (padRetrieve maxPaths maxPathWidth tree.retrieve) = scores at *
  rw [shape, List.append_assoc, List.replicate_append_replicate] at selected score
  obtain ⟨accepted, result, length, acceptedTokens, next, indices⟩ :=
    acceptSelected_real inputIds argmax hiddenSources (maximum scores) (argmaxFirst scores)
      (padding + more) path strictly root
  have reads : ∀ position node : Nat, path[position]? = some node →
      (path.map Int.ofNat ++ List.replicate (padding + more) (-1))[position]? =
        some (node : Int) := by
    intro position node read
    have bound : position < path.length := (List.getElem?_eq_some_iff.mp read).1
    rw [List.getElem?_append_left (by rwa [List.length_map]), List.getElem?_map, read]
    rfl
  refine ⟨accepted, path.take (maximum scores + 1), ?_, ⟨indices, ?_, ?_, ?_, ?_, ?_⟩, ?_⟩
  · simpa only [selected] using result
  · rw [length, List.length_take]
    omega
  · rw [List.head?_take, if_neg (by omega)]
    exact root
  · exact fun node onPath => inside node (List.mem_of_mem_take onPath)
  · rw [acceptedTokens, Tree.tokensAt, List.tail_take_eq_take_tail, Nat.add_sub_cancel]
    exact List.map_congr_left (fun node onPath => tokens node
      (inside node (List.mem_of_mem_tail (List.mem_of_mem_take onPath))))
  · intro position node read
    have bound : position < maximum scores + 1 := by
      have shorter := (List.getElem?_eq_some_iff.mp read).1
      rw [List.length_take] at shorter
      omega
    rw [List.getElem?_take, if_pos bound] at read
    have real : position < path.length := (List.getElem?_eq_some_iff.mp read).1
    have onRow : row[position]? = some (node : Int) := by
      rw [shape, List.getElem?_append_left (by rwa [List.length_map]), List.getElem?_map, read]
      rfl
    rw [wellFormed.spells row member position node onRow, shape, List.take_take,
      List.take_append_of_le_length (by rw [List.length_map]; omega), ← List.map_take, List.map_map]
    simp [Function.comp_def, Nat.min_eq_left (by omega : position + 1 ≤ maximum scores + 1)]
  · intro strict
    refine ⟨?_, ?_⟩
    · intro position parent child atParent atChild
      have counted : position + 1 < maximum scores + 1 := by
        have shorter := (List.getElem?_eq_some_iff.mp atChild).1
        rw [List.length_take] at shorter
        omega
      rw [List.getElem?_take, if_pos (by omega)] at atParent
      rw [List.getElem?_take, if_pos counted] at atChild
      have member := List.mem_of_getElem? atChild
      obtain ⟨node, previous, drafted⟩ := posterior_strict acceptTopk (tree.width - 1) treeWidth
        inputIds argmax topk _ strict position
        (agreement_of_lt _ position (score.symm ▸ Nat.lt_of_succ_lt_succ counted))
      have same : node = parent := by
        simp only [safeRow, List.getElem?_map, reads position parent atParent] at previous
        simpa using previous.symm
      rw [candidate_node treeWidth inputIds _ (position + 1) child
        (by have := inside child member; omega) (reads _ child atChild), same] at drafted
      rw [← tokens child (inside child member)]
      exact Int.ofNat_inj.mp (Option.some.inj drafted)
    · intro node last
      rw [List.getLast?_eq_getElem?, List.length_take, Nat.min_eq_left strictly,
        Nat.succ_sub_one, List.getElem?_take, if_pos (Nat.lt_succ_self _),
        List.getElem?_eq_getElem strictly] at last
      rw [next, Option.some.inj last]

/-- An accepted path visits each node once, so it fits in the tree and in its retrieve rows. -/
theorem Accepted.OnTree.length_le {accepted : Accepted H} {tree : Tree} {path : List Nat}
    (onTree : accepted.OnTree tree path) :
    path.length ≤ tree.width ∧ path.length ≤ tree.retrieve.width := by
  have distinct : path.Nodup := by
    rw [List.nodup_iff_injective_getElem]
    intro left right same
    have front : path.take (left + 1) = path.take (right + 1) := by
      have atLeft := onTree.prefixes left _ (List.getElem?_eq_getElem left.isLt)
      have atRight := onTree.prefixes right _ (List.getElem?_eq_getElem right.isLt)
      dsimp only at same
      rw [same] at atLeft
      exact Option.some.inj (atLeft.symm.trans atRight)
    have lengths := congrArg List.length front
    rw [List.length_take, List.length_take] at lengths
    exact Fin.ext (by omega)
  constructor
  · have inside : path ⊆ List.range tree.width := fun node member =>
      List.mem_range.mpr (onTree.inside node member)
    simpa using (List.subperm_of_subset distinct inside).length_le
  · have positive : 0 < path.length := by
      rw [onTree.length]
      omega
    have last := onTree.prefixes (path.length - 1) _ (List.getElem?_eq_getElem (by omega))
    obtain ⟨row, found, shape⟩ := Option.map_eq_some_iff.mp last
    have listed := tree.retrieve.rectangular row (List.mem_of_find?_eq_some found)
    have lengths := congrArg List.length shape
    rw [List.length_map, List.length_take, List.length_take] at lengths
    omega

/-- Position by position, a greedy decision proposes the choice at the path's node. -/
theorem proposed_spells {accepted : Accepted H} {tree : Tree} {path : List Nat}
    {choice : Nat → Nat} (onTree : accepted.OnTree tree path)
    (greedy : accepted.Greedy tree choice path) (position token : Nat)
    (read : accepted.proposed[position]? = some token) :
    ∃ node, path[position]? = some node ∧ token = choice node ∧
      accepted.proposed.take position = tree.tokensAt (path.tail.take position) := by
  have lengths : path.tail.length = accepted.acceptLength := by
    rw [List.length_tail, onTree.length, Nat.add_sub_cancel]
  have bound : position < accepted.proposed.length := (List.getElem?_eq_some_iff.mp read).1
  have tokens : accepted.acceptedTokenIds = tree.tokensAt path.tail := onTree.tokens
  simp only [Accepted.proposed, tokens, Tree.tokensAt, List.length_append, List.length_map,
    List.length_singleton] at bound read ⊢
  have front : (path.tail.map (fun node => tree.tokens.getD node 0) ++ [accepted.nextToken]).take
      position = (path.tail.take position).map (fun node => tree.tokens.getD node 0) := by
    rw [List.take_append_of_le_length (by rw [List.length_map]; omega), List.map_take]
  have onPath : position < path.length := by
    rw [onTree.length]
    omega
  refine ⟨path[position], List.getElem?_eq_getElem onPath, ?_, front⟩
  by_cases counted : position < path.tail.length
  · rw [List.getElem?_append_left (by rwa [List.length_map]), List.getElem?_map] at read
    obtain ⟨child, atChild, rfl⟩ := Option.map_eq_some_iff.mp read
    refine greedy.chosen position path[position] child (List.getElem?_eq_getElem onPath) ?_
    rwa [List.getElem?_tail] at atChild
  · have last : position = path.tail.length := by omega
    subst last
    have chosen : accepted.nextToken = token := by simpa using read
    rw [← chosen]
    apply greedy.next
    rw [List.getLast?_eq_getElem?, List.getElem?_eq_some_iff]
    refine ⟨by omega, ?_⟩
    congr 1
    simp

/-- When each node's choice is the target's after the node's root path, a greedy
decision proposes tokens that follow the target from the root on. -/
theorem Accepted.Greedy.follows {next : List Nat → Nat} {context : List Nat} {current : Nat}
    {accepted : Accepted H} {tree : Tree} {path : List Nat} {choice : Nat → Nat}
    (greedy : accepted.Greedy tree choice path) (onTree : accepted.OnTree tree path)
    (wellFormed : tree.WellFormed current)
    (faithful : ∀ node nodePath, tree.rootPath node = some nodePath →
      choice node = next (context ++ tree.tokensAt nodePath)) :
    Autoregressive.Follows next (context ++ [current]) accepted.proposed := by
  rw [Autoregressive.follows_iff_getElem]
  intro position token read
  obtain ⟨node, atNode, chosen, front⟩ := proposed_spells onTree greedy position token read
  have spelled : tree.tokensAt (path.take (position + 1)) =
      current :: accepted.proposed.take position := by
    rw [front, Tree.tokensAt, List.map_take, ← Tree.tokensAt, onTree.spelled wellFormed,
      List.take_succ_cons, onTree.tokens, Tree.tokensAt, Tree.tokensAt, List.map_take]
  rw [chosen, faithful node _ (onTree.prefixes position node atNode), spelled]
  simp

end SpecBlock.Batch
