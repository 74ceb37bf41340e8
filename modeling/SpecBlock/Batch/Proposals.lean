import SpecBlock.Batch.Sampling

/-!
# Proposals of a padded level

The levels of `_accept_sampling_batch` compare rows of padded integer tensors.
Here they are read as statements about the request's own tree: a retrieve row is
a node path with a spelling, two rows match above a level when both spellings
start with the tokens accepted so far, and the proposals of the level are the
distinct next tokens of the matching spellings, in row order.

`StagedRow.Reads` connects the tensors to the tree. Everything after it speaks
about spellings only.
-/

namespace SpecBlock.Batch

namespace Tree

/-- Nodes of a retrieve row, without its padding. -/
def path (tree : Tree) (row : Nat) : List Nat :=
  ((tree.retrieve.rows.getD row []).takeWhile (fun index => decide (0 ≤ index))).map Int.toNat

/-- Tokens of a retrieve row, the root's first. -/
def spelling (tree : Tree) (row : Nat) : List Nat := tree.tokensAt (tree.path row)

/-- The token a row drafts right after the given ones. -/
def offer (vocabSize : Nat) (tree : Tree) (tokens : List Nat) (row : Nat) : Option Nat :=
  if tokens <+: tree.spelling row then
    (tree.spelling row)[tokens.length]?.filter (fun token => decide (token < vocabSize))
  else none

/-- Distinct tokens drafted right after the given ones, in retrieve-row order. -/
def childTokens (vocabSize : Nat) (tree : Tree) (tokens : List Nat) : List Nat :=
  ((List.range tree.retrieve.rows.length).filterMap (tree.offer vocabSize tokens)).eraseDups

/-- Whether some row drafts the given tokens. -/
def drafts (tree : Tree) (tokens : List Nat) : Bool :=
  (List.range tree.retrieve.rows.length).any (fun row => decide (tokens <+: tree.spelling row))

@[simp] theorem spelling_length (tree : Tree) (row : Nat) :
    (tree.spelling row).length = (tree.path row).length := by
  simp [spelling, tokensAt]

end Tree

section padded

/-- A padded list of naturals, as retrieve rows and candidates store it. -/
theorem takeWhile_padded (entries : List Nat) (padding : Nat) :
    ((entries.map Int.ofNat ++ List.replicate padding (-1)).takeWhile
      (fun index => decide (0 ≤ index))) = entries.map Int.ofNat := by
  induction entries with
  | nil => cases padding <;> simp [List.replicate_succ]
  | cons entry rest ih =>
    simp only [List.map_cons, List.cons_append]
    rw [List.takeWhile_cons_of_pos (by simp), ih]

/-- Padding never agrees with a genuine token, so agreement of padded rows is
agreement of their spellings. -/
theorem take_padded (entries tokens : List Nat) (padding : Nat) :
    (entries.map Int.ofNat ++ List.replicate padding (-1)).take tokens.length =
      tokens.map Int.ofNat ↔ tokens <+: entries := by
  induction tokens generalizing entries with
  | nil => simp
  | cons token tokens ih =>
    cases entries with
    | nil =>
      refine ⟨fun agree => ?_, fun ⟨rest, impossible⟩ => by simp at impossible⟩
      cases padding with
      | zero => simp at agree
      | succ padding =>
        have head := congrArg List.head? agree
        simp [List.replicate_succ] at head
    | cons entry rest =>
      rw [List.cons_prefix_cons, ← ih rest]
      simp only [List.map_cons, List.cons_append, List.length_cons, List.take_succ_cons,
        List.cons.injEq, Int.ofNat_eq_natCast, Int.natCast_inj]
      exact ⟨fun agree => ⟨agree.1.symm, agree.2⟩, fun agree => ⟨agree.1.symm, agree.2⟩⟩

theorem getD_padded (entries : List Nat) (padding position : Nat) :
    (entries.map Int.ofNat ++ List.replicate padding (-1)).getD position (-1) =
      entries[position]?.elim (-1) Int.ofNat := by
  rw [List.getD_eq_getElem?_getD, List.getElem?_append, List.length_map]
  by_cases inside : position < entries.length
  · simp [inside]
  · simp only [inside, if_false, List.getElem?_replicate, List.getElem?_eq_none (Nat.le_of_not_lt inside)]
    split <;> rfl

end padded

namespace Tree

variable {tree : Tree} {current : Nat}

theorem WellFormed.row_path (wellFormed : tree.WellFormed current) (row : Nat)
    (inside : row < tree.retrieve.rows.length) :
    (∃ padding, tree.retrieve.rows.getD row [] =
      (tree.path row).map Int.ofNat ++ List.replicate padding (-1)) ∧
    (tree.path row).head? = some 0 ∧ ∀ node ∈ tree.path row, node < tree.width := by
  have member : tree.retrieve.rows.getD row [] ∈ tree.retrieve.rows := by
    simp [List.getD_eq_getElem?_getD, inside]
  obtain ⟨nodes, padding, shape, root, bounded⟩ := wellFormed.rows _ member
  have same : tree.path row = nodes := by
    rw [path, shape, takeWhile_padded, List.map_map]
    simp [Function.comp_def]
  rw [same]
  exact ⟨⟨padding, shape⟩, root, bounded⟩

theorem WellFormed.retrieve_pos (wellFormed : tree.WellFormed current) :
    0 < tree.retrieve.width := by
  obtain ⟨row, member⟩ := List.exists_mem_of_ne_nil _ wellFormed.nonempty
  obtain ⟨path, padding, shape, root, -⟩ := wellFormed.rows row member
  have someNode : 0 < path.length := List.length_pos_iff.mpr fun empty => by simp [empty] at root
  rw [← tree.retrieve.rectangular row member, shape, List.length_append, List.length_map]
  omega

/-- The root path of a node on a retrieve row is the row's path down to it. -/
theorem WellFormed.rootPath_path (wellFormed : tree.WellFormed current) (row position node : Nat)
    (read : (tree.path row)[position]? = some node) :
    tree.rootPath node = some ((tree.path row).take (position + 1)) := by
  have onPath : position < (tree.path row).length := (List.getElem?_eq_some_iff.mp read).1
  have inside : row < tree.retrieve.rows.length := by
    by_contra beyond
    have empty : tree.path row = [] := by
      simp [path, List.getD_eq_getElem?_getD, List.getElem?_eq_none (Nat.le_of_not_lt beyond)]
    simp [empty] at onPath
  have member : tree.retrieve.rows.getD row [] ∈ tree.retrieve.rows := by
    simp [List.getD_eq_getElem?_getD, inside]
  obtain ⟨⟨padding, shape⟩, -, -⟩ := wellFormed.row_path row inside
  have onRow : (tree.retrieve.rows.getD row [])[position]? = some (node : Int) := by
    rw [shape, List.getElem?_append_left (by rwa [List.length_map]), List.getElem?_map, read]
    rfl
  rw [wellFormed.spells _ member position node onRow, shape,
    List.take_append_of_le_length (by rw [List.length_map]; omega), ← List.map_take, List.map_map]
  simp [Function.comp_def]

theorem WellFormed.spelling_root (wellFormed : tree.WellFormed current) (row : Nat)
    (inside : row < tree.retrieve.rows.length) :
    tree.spelling row = current :: (tree.spelling row).tail := by
  obtain ⟨-, root, -⟩ := wellFormed.row_path row inside
  have token := wellFormed.root
  unfold spelling
  cases nodes : tree.path row with
  | nil => simp [nodes] at root
  | cons node rest =>
    obtain rfl : node = 0 := by simpa [nodes] using root
    rw [List.head?_eq_getElem?] at token
    simp [tokensAt, token]

theorem offer_outside (vocabSize row : Nat) (tokens : List Nat) (started : tokens ≠ [])
    (outside : tree.retrieve.rows.length ≤ row) : tree.offer vocabSize tokens row = none := by
  have empty : tree.spelling row = [] := by
    simp [spelling, tokensAt, path, List.getD_eq_getElem?_getD, List.getElem?_eq_none outside]
  simp [offer, empty, started]

/-- What a row offers extends the given tokens along that row. -/
theorem offer_eq_some (vocabSize row token : Nat) (tokens : List Nat) :
    tree.offer vocabSize tokens row = some token ↔
      tokens ++ [token] <+: tree.spelling row ∧ token < vocabSize := by
  constructor
  · intro offered
    unfold offer at offered
    split at offered
    · next agrees =>
      obtain ⟨rest, spelled⟩ := agrees
      rw [← spelled] at offered ⊢
      cases rest with
      | nil => simp at offered
      | cons first rest =>
        obtain ⟨same, bounded⟩ : first = token ∧ first < vocabSize := by
          simp only [List.getElem?_append_right (Nat.le_refl _), Nat.sub_self,
            List.getElem?_cons_zero, Option.filter_eq_some_iff, decide_eq_true_eq] at offered
          exact ⟨Option.some.inj offered.1, by simpa [Option.some.inj offered.1] using offered.2⟩
        subst same
        exact ⟨⟨rest, by simp⟩, bounded⟩
    · exact absurd offered (by simp)
  · rintro ⟨⟨rest, spelled⟩, bounded⟩
    have agrees : tokens <+: tree.spelling row := ⟨token :: rest, by simp [← spelled]⟩
    rw [offer, if_pos agrees, ← spelled]
    simp [bounded]

theorem childTokens_nodup (vocabSize : Nat) (tree : Tree) (tokens : List Nat) :
    (tree.childTokens vocabSize tokens).Nodup := by
  rw [childTokens, ← Rows.offersFirst_values]
  exact Rows.offersFirst_nodup _ _

/-- The child tokens are the vocabulary's tokens whose extension is drafted. -/
theorem mem_childTokens (vocabSize token : Nat) (tokens : List Nat) :
    token ∈ tree.childTokens vocabSize tokens ↔
      token < vocabSize ∧ tree.drafts (tokens ++ [token]) = true := by
  simp only [childTokens, List.mem_eraseDups, List.mem_filterMap, drafts, List.any_eq_true,
    decide_eq_true_eq, offer_eq_some]
  constructor
  · rintro ⟨row, inside, agrees, bounded⟩
    exact ⟨bounded, row, inside, agrees⟩
  · rintro ⟨bounded, row, inside, agrees⟩
    exact ⟨row, inside, agrees, bounded⟩

end Tree

/-- The staged tensors of a request hold its own tree. -/
structure StagedRow.Reads (staged : StagedRow) (tree : Tree) : Prop where
  count : staged.pathCount = tree.retrieve.rows.length
  width : staged.pathWidth = tree.retrieve.width
  nodes : staged.localTreeWidth = tree.width
  retrieve : ∀ row < tree.retrieve.rows.length, ∃ padding, staged.retrieve.getD row [] =
    (tree.path row).map Int.ofNat ++ List.replicate padding (-1)
  candidates : ∀ row < tree.retrieve.rows.length, ∃ padding, staged.candidates.getD row [] =
    (tree.spelling row).map Int.ofNat ++ List.replicate padding (-1)

/-- Staging reads the tree: padding and sentinels stay outside every path. -/
theorem stageRow_reads (treeWidth maxPaths maxPathWidth current : Nat) (tree : Tree)
    (inputIds : List Nat) (wellFormed : tree.WellFormed current)
    (staged : inputIds.length = treeWidth) (fits : tree.width ≤ treeWidth)
    (tokens : ∀ node < tree.width, inputIds.getD node 0 = tree.tokens.getD node 0) :
    (stageRow treeWidth maxPaths maxPathWidth tree inputIds).Reads tree := by
  have retrieved : ∀ row < tree.retrieve.rows.length, ∃ padding,
      (padRetrieve maxPaths maxPathWidth tree.retrieve)[row]? =
        some ((tree.path row).map Int.ofNat ++ List.replicate padding (-1)) := by
    intro row inside
    obtain ⟨⟨padding, shape⟩, -, -⟩ := wellFormed.row_path row inside
    refine ⟨padding + (maxPathWidth - tree.retrieve.width), ?_⟩
    rw [padRetrieve, List.getElem?_append_left (by simpa using inside), List.getElem?_map,
      ← List.replicate_append_replicate, ← List.append_assoc, ← shape]
    simp [List.getD_eq_getElem?_getD, inside]
  refine ⟨rfl, rfl, rfl, ?_, ?_⟩
  · intro row inside
    obtain ⟨padding, read⟩ := retrieved row inside
    exact ⟨padding, by simp [stageRow, List.getD_eq_getElem?_getD, read]⟩
  · intro row inside
    obtain ⟨padding, read⟩ := retrieved row inside
    obtain ⟨-, -, bounded⟩ := wellFormed.row_path row inside
    refine ⟨padding, ?_⟩
    simp only [stageRow, List.getD_eq_getElem?_getD, List.getElem?_map, read, Option.map_some,
      Option.getD_some, List.map_append, List.map_map, List.map_replicate, Tree.spelling,
      Tree.tokensAt]
    congr 1
    · refine List.map_congr_left (fun node onPath => ?_)
      have real := bounded node onPath
      have inRow : node < inputIds.length := by omega
      have genuine : validRetrieve tree.width (node : Int) = true := by
        simp [validRetrieve, real]
      have token := tokens node real
      simp only [List.getD_eq_getElem?_getD] at token
      simp [genuine, List.getElem?_append_left, inRow, ← token]
    · simp [validRetrieve, ← staged]

/-- A row that has accepted the given tokens, the current one included. -/
structure Tree.Walking (tree : Tree) (best : Nat) (tokens : List Nat) : Prop where
  inside : best < tree.retrieve.rows.length
  started : tokens ≠ []
  spelled : tokens <+: tree.spelling best

section level

variable {staged : StagedRow} {tree : Tree} {best : Nat} {tokens : List Nat} {current : Nat}

/-- The sibling token of a real row is its next token, or the sentinel. -/
theorem siblingToken_eq (reads : staged.Reads tree) (row depth : Nat)
    (inside : row < tree.retrieve.rows.length) :
    siblingToken staged depth row = (tree.spelling row)[depth]?.elim (-1) Int.ofNat := by
  obtain ⟨padding, candidate⟩ := reads.candidates row inside
  rw [siblingToken, candidate, getD_padded]

/-- The sibling node of a real row is usable exactly inside its path. -/
theorem siblingNode_valid (reads : staged.Reads tree) (wellFormed : tree.WellFormed current)
    (row depth : Nat) (inside : row < tree.retrieve.rows.length) :
    validRetrieve staged.localTreeWidth ((staged.retrieve.getD row []).getD depth (-1)) =
      decide (depth < (tree.path row).length) := by
  obtain ⟨padding, nodes⟩ := reads.retrieve row inside
  obtain ⟨-, -, bounded⟩ := wellFormed.row_path row inside
  rw [nodes, getD_padded, reads.nodes]
  by_cases onPath : depth < (tree.path row).length
  · have real := bounded _ (List.getElem_mem onPath)
    simp [validRetrieve, onPath, real]
  · simp [validRetrieve, onPath]

variable (reads : staged.Reads tree) (walking : tree.Walking best tokens)
include reads walking

/-- Rows match when their spellings start with the accepted tokens. -/
theorem matching_eq (row : Nat) :
    matching staged tokens.length best row =
      decide (row < tree.retrieve.rows.length ∧ tokens <+: tree.spelling row) := by
  obtain ⟨padding, reference⟩ := reads.candidates best walking.inside
  have accepted := (take_padded _ tokens padding).mpr walking.spelled
  rw [← reference] at accepted
  rw [Bool.eq_iff_iff]
  simp only [matching, accepted, reads.count, Bool.and_eq_true, decide_eq_true_eq, beq_iff_eq]
  refine and_congr_right (fun inside => ?_)
  obtain ⟨more, candidate⟩ := reads.candidates row inside
  rw [candidate]
  exact take_padded _ tokens more

/-- An earlier matching row repeats a drafted token exactly when it offers it. -/
theorem seenEarlier_eq (vocabSize row token : Nat)
    (offered : tree.offer vocabSize tokens row = some token) :
    seenEarlier staged tokens.length best row =
      (List.range row).any (fun earlier =>
        tree.offer vocabSize tokens earlier == tree.offer vocabSize tokens row) := by
  obtain ⟨⟨rest, spelled⟩, bounded⟩ := (Tree.offer_eq_some vocabSize row token tokens).mp offered
  have inside : row < tree.retrieve.rows.length := by
    by_contra outside
    rw [Tree.offer_outside vocabSize row tokens walking.started (Nat.le_of_not_lt outside)] at offered
    simp at offered
  have own : siblingToken staged tokens.length row = (token : Int) := by
    rw [siblingToken_eq reads row _ inside, ← spelled]
    simp
  unfold seenEarlier
  rw [Bool.eq_iff_iff, List.any_eq_true, List.any_eq_true]
  refine exists_congr (fun earlier => and_congr_right (fun member => ?_))
  have before : earlier < tree.retrieve.rows.length := (List.mem_range.mp member).trans inside
  rw [matching_eq reads walking earlier, own, siblingToken_eq reads earlier _ before, offered]
  simp only [before, true_and, Bool.and_eq_true, decide_eq_true_eq, beq_iff_eq,
    Tree.offer_eq_some, bounded, and_true]
  constructor
  · rintro ⟨⟨more, agrees⟩, same⟩
    rw [← agrees] at same ⊢
    cases more with
    | nil => simp at same
    | cons first more =>
      obtain rfl : first = token := by simpa using same
      exact ⟨more, by simp⟩
  · rintro ⟨more, agrees⟩
    refine ⟨⟨token :: more, by simp [← agrees]⟩, ?_⟩
    rw [← agrees]
    simp

/-- The proposals of a level are the first offers of each child token. -/
theorem proposal_eq (wellFormed : tree.WellFormed current) (vocabSize row : Nat) :
    proposal vocabSize staged tokens.length best row =
      Rows.offersFirst (tree.offer vocabSize tokens) row := by
  cases offered : tree.offer vocabSize tokens row with
  | some token =>
    obtain ⟨⟨rest, spelled⟩, bounded⟩ := (Tree.offer_eq_some vocabSize row token tokens).mp offered
    have inside : row < tree.retrieve.rows.length := by
      by_contra outside
      rw [Tree.offer_outside vocabSize row tokens walking.started (Nat.le_of_not_lt outside)]
        at offered
      simp at offered
    have agrees : tokens <+: tree.spelling row := ⟨token :: rest, by simp [← spelled]⟩
    have onPath : tokens.length < (tree.path row).length := by
      rw [← Tree.spelling_length, ← spelled]
      simp
    have own : siblingToken staged tokens.length row = (token : Int) := by
      rw [siblingToken_eq reads row _ inside, ← spelled]
      simp
    rw [proposal, matching_eq reads walking row, siblingNode_valid reads wellFormed row _ inside, own,
      seenEarlier_eq reads walking vocabSize row token offered, Rows.offersFirst, offered]
    simp [inside, agrees, onPath, bounded]
  | none =>
    have silent : Rows.offersFirst (tree.offer vocabSize tokens) row = false := by
      simp [Rows.offersFirst, offered]
    rw [silent, Bool.eq_false_iff]
    intro proposed
    simp only [proposal, matching_eq reads walking row, Bool.and_eq_true, decide_eq_true_eq] at proposed
    obtain ⟨⟨⟨⟨inside, agrees⟩, valid⟩, genuine⟩, -⟩ := proposed
    rw [siblingNode_valid reads wellFormed row _ inside, decide_eq_true_eq,
      ← Tree.spelling_length] at valid
    rw [siblingToken_eq reads row _ inside, List.getElem?_eq_getElem valid] at genuine
    have bounded : (tree.spelling row)[tokens.length] < vocabSize := by simpa using genuine.2
    rw [Tree.offer, if_pos agrees, List.getElem?_eq_getElem valid] at offered
    exact absurd bounded (by simpa using offered)

theorem safeToken_eq (vocabSize row token : Nat)
    (offered : tree.offer vocabSize tokens row = some token)
    (proposed : proposal vocabSize staged tokens.length best row = true) :
    safeToken vocabSize staged tokens.length best row = token := by
  obtain ⟨⟨rest, spelled⟩, -⟩ := (Tree.offer_eq_some vocabSize row token tokens).mp offered
  have inside : row < tree.retrieve.rows.length := by
    by_contra outside
    rw [Tree.offer_outside vocabSize row tokens walking.started (Nat.le_of_not_lt outside)] at offered
    simp at offered
  rw [safeToken, if_pos proposed, siblingToken_eq reads row _ inside, ← spelled]
  simp

/-- The proposed rows' tokens are the child tokens, in order. -/
theorem proposals_tokens (wellFormed : tree.WellFormed current) (vocabSize maxPaths : Nat)
    (covered : tree.retrieve.rows.length ≤ maxPaths) :
    ((List.range maxPaths).filter (proposal vocabSize staged tokens.length best)).map
      (safeToken vocabSize staged tokens.length best) = tree.childTokens vocabSize tokens := by
  have first : proposal vocabSize staged tokens.length best =
      Rows.offersFirst (tree.offer vocabSize tokens) :=
    funext (proposal_eq reads walking wellFormed vocabSize)
  have read : ((List.range maxPaths).filter (proposal vocabSize staged tokens.length best)).map
      (safeToken vocabSize staged tokens.length best) =
      ((List.range maxPaths).filter (Rows.offersFirst (tree.offer vocabSize tokens))).filterMap
        (tree.offer vocabSize tokens) := by
    rw [← first, ← List.filterMap_eq_map]
    refine List.filterMap_congr (fun row member => ?_)
    have proposed := (List.mem_filter.mp member).2
    have offers := proposed
    rw [first, Rows.offersFirst, Bool.and_eq_true] at offers
    obtain ⟨token, offered⟩ := Option.isSome_iff_exists.mp offers.1
    rw [Function.comp_apply, offered,
      safeToken_eq reads walking vocabSize row token offered proposed]
  rw [read, Rows.offersFirst_values, Tree.childTokens]
  congr 1
  obtain ⟨extra, rfl⟩ := Nat.exists_eq_add_of_le covered
  rw [List.range_add, List.filterMap_append, List.append_right_eq_self, List.filterMap_eq_nil_iff]
  intro row member
  obtain ⟨past, -, rfl⟩ := List.mem_map.mp member
  exact Tree.offer_outside vocabSize _ tokens walking.started (Nat.le_add_right _ _)

/-- The node a level projects is the end of the accepted tokens. -/
theorem currentNode_spells (wellFormed : tree.WellFormed current) (maxPaths : Nat)
    (covered : tree.retrieve.rows.length ≤ maxPaths) :
    ∃ nodes, tree.rootPath (currentNode staged tokens.length best maxPaths) = some nodes ∧
      tree.tokensAt nodes = tokens := by
  obtain ⟨row, found, inside, agrees⟩ : ∃ row,
      (List.range maxPaths).find? (matching staged tokens.length best) = some row ∧
        row < tree.retrieve.rows.length ∧ tokens <+: tree.spelling row := by
    have itself : matching staged tokens.length best best = true := by
      rw [matching_eq reads walking best]
      exact decide_eq_true ⟨walking.inside, walking.spelled⟩
    have exists_match : ((List.range maxPaths).find?
        (matching staged tokens.length best)).isSome = true := by
      rw [List.find?_isSome]
      exact ⟨best, List.mem_range.mpr (walking.inside.trans_le covered), itself⟩
    obtain ⟨row, found⟩ := Option.isSome_iff_exists.mp exists_match
    have matches_row := List.find?_some found
    rw [matching_eq reads walking row, decide_eq_true_eq] at matches_row
    exact ⟨row, found, matches_row⟩
  have positive : 0 < tokens.length := List.length_pos_iff.mpr walking.started
  have onPath : tokens.length - 1 < (tree.path row).length := by
    have bound := agrees.length_le
    rw [Tree.spelling_length] at bound
    omega
  obtain ⟨padding, nodes⟩ := reads.retrieve row inside
  have node : currentNode staged tokens.length best maxPaths = (tree.path row)[tokens.length - 1] := by
    rw [currentNode, found, Option.getD_some, nodes, getD_padded, List.getElem?_eq_getElem onPath]
    rfl
  rw [node]
  refine ⟨_, wellFormed.rootPath_path row _ _ (List.getElem?_eq_getElem onPath), ?_⟩
  rw [Nat.sub_add_cancel positive, Tree.tokensAt, List.map_take, ← Tree.tokensAt]
  exact (List.prefix_iff_eq_take.mp agrees).symm

end level

end SpecBlock.Batch
