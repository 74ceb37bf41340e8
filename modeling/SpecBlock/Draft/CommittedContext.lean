import Mathlib.Data.List.GetD
import Mathlib.Data.List.TakeDrop
import SpecBlock.Batch.Trees
import SpecBlock.Draft.BatchedRounds
import SpecBlock.Draft.Prefill

/-!
# Decode rounds beside prefill

Verification hands the draft the hidden rows of the accepted part of a retrieve row, the root
included, and the decode loop feeds them with the accepted tokens from the second one on. The
comments of the loop speak of the accepted tokens and the last one; counted from the root,
each row comes one token early, and meets the token after the next one.

The position starts one further than the prompt's drafted position, which was already one
further than its token. So each round moves the positions once more against the tokens.
-/

namespace SpecBlock.Draft

open Serving Batch

variable {H : Type} {K : Nat}

/-- A verified tree: the retrieve row the target follows, how far, and the token it adds. -/
structure VerifiedRound where
  tree : Tree
  row : List Int
  acceptLength : Nat
  nextToken : Nat

namespace VerifiedRound

/-- Tokens of the accepted nodes. -/
def acceptedTokenIds (round : VerifiedRound) : List Nat :=
  ((round.row.tail.take round.acceptLength).filter (fun index => 0 ≤ index)).map
    (fun index => round.tree.tokens.getD index.toNat 0)

/-- Nodes whose hidden rows the single-request loop hands to the draft. -/
def selectHiddenIndices (round : VerifiedRound) : List Int :=
  if 0 < round.acceptLength then
    (round.row.take round.acceptLength).filter (fun index => 0 ≤ index) ++
      [round.row.getD round.acceptLength (-1)]
  else [round.row.getD 0 (-1)]

/-- Nodes whose hidden rows the batched loop hands to the draft. -/
def selectedPathIndices (round : VerifiedRound) : List Int :=
  (round.row.take (round.acceptLength + 1)).map (fun index => max index 0)

/-- The row is one of the tree's and reaches real nodes as far as it is followed. -/
structure Real (round : VerifiedRound) (current : Nat) : Prop where
  wellFormed : round.tree.WellFormed current
  listed : round.row ∈ round.tree.retrieve.rows
  reached : ∀ position, position ≤ round.acceptLength →
    ∃ node : Nat, round.row[position]? = some (node : Int)

/-- What verification returns, as a chain. -/
structure Returns (round : VerifiedRound) (nodeHidden : Nat → H) (chain : AcceptedChain H) :
    Prop where
  tokens : chain.tokens = round.acceptedTokenIds
  next : chain.lastToken = round.nextToken
  hidden : chain.verifiedHidden =
    round.selectHiddenIndices.map (fun index => nodeHidden index.toNat)

/-- The followed part of a real row is a path of nodes that starts at the root. -/
theorem Real.followed {round : VerifiedRound} {current : Nat} (real : round.Real current) :
    ∃ path : List Nat, round.row.take (round.acceptLength + 1) = path.map Int.ofNat ∧
      path.length = round.acceptLength + 1 ∧
      ∀ position node, path[position]? = some node →
        round.tree.rootPath node = some (path.take (position + 1)) := by
  obtain ⟨nodes, padding, shape, -, -⟩ := real.wellFormed.rows round.row real.listed
  have long : round.acceptLength < nodes.length := by
    by_contra short
    obtain ⟨node, read⟩ := real.reached round.acceptLength (Nat.le_refl _)
    rw [shape, List.getElem?_append_right (by simpa using short)] at read
    have sentinel := List.eq_of_mem_replicate (List.mem_of_getElem? read)
    omega
  have taken : round.row.take (round.acceptLength + 1) =
      (nodes.take (round.acceptLength + 1)).map Int.ofNat := by
    rw [shape, List.take_append_of_le_length (by simpa using Nat.succ_le_of_lt long), List.map_take]
  refine ⟨nodes.take (round.acceptLength + 1), taken, by simpa using Nat.succ_le_of_lt long, ?_⟩
  intro position node read
  have inside := (List.getElem?_eq_some_iff.mp read).1
  rw [List.length_take] at inside
  have onRow : round.row[position]? = some (node : Int) := by
    have onTaken : (round.row.take (round.acceptLength + 1))[position]? = some (node : Int) := by
      rw [taken, List.getElem?_map, read]
      rfl
    rwa [List.getElem?_take, if_pos (by omega)] at onTaken
  have cut : position + 1 ≤ round.acceptLength + 1 := by omega
  have front : round.row.take (position + 1) =
      ((nodes.take (round.acceptLength + 1)).take (position + 1)).map Int.ofNat := by
    rw [List.map_take, ← taken, List.take_take, Nat.min_eq_left cut]
  rw [real.wellFormed.spells round.row real.listed position node onRow, front, List.map_map]
  simp [Function.comp_def]

/-- Both loops hand over the same hidden rows: those of the followed path. -/
theorem selected_path {round : VerifiedRound} {path : List Nat}
    (taken : round.row.take (round.acceptLength + 1) = path.map Int.ofNat)
    (length : path.length = round.acceptLength + 1) :
    round.selectHiddenIndices = path.map Int.ofNat ∧
      round.selectedPathIndices = path.map Int.ofNat ∧
      round.acceptedTokenIds = round.tree.tokensAt path.tail := by
  have nonnegative : ∀ nodes : List Nat,
      (nodes.map Int.ofNat).filter (fun index => decide (0 ≤ index)) = nodes.map Int.ofNat := by
    intro nodes
    apply List.filter_eq_self.mpr
    simp
  have front : round.row.take round.acceptLength = (path.take round.acceptLength).map Int.ofNat := by
    rw [List.map_take, ← taken, List.take_take, Nat.min_eq_left (Nat.le_succ _)]
  have last : round.row.getD round.acceptLength (-1) =
      Int.ofNat (path.getD round.acceptLength 0) := by
    have read : (round.row.take (round.acceptLength + 1))[round.acceptLength]? =
        (path.map Int.ofNat)[round.acceptLength]? := by rw [taken]
    have inside : round.acceptLength < path.length := by omega
    rw [List.getElem?_take, if_pos (Nat.lt_succ_self _), List.getElem?_map] at read
    simp [List.getD_eq_getElem?_getD, read, inside]
  have whole : path.take round.acceptLength ++ [path.getD round.acceptLength 0] = path := by
    have inside : round.acceptLength < path.length := by omega
    rw [List.getD_eq_getElem _ _ inside, ← List.take_succ_eq_append_getElem inside,
      List.take_of_length_le (by omega)]
  refine ⟨?_, ?_, ?_⟩
  · unfold selectHiddenIndices
    split
    next some =>
      rw [front, nonnegative, last]
      exact (List.map_append ..).symm.trans (congrArg (List.map Int.ofNat) whole)
    next none =>
      have zero : round.acceptLength = 0 := by omega
      rw [zero] at last whole
      rw [last]
      exact congrArg (List.map Int.ofNat) whole
  · rw [selectedPathIndices, taken, List.map_map]
    apply List.map_congr_left
    intro node _
    exact Int.max_eq_left (Int.natCast_nonneg node)
  · have tail : round.row.tail.take round.acceptLength = path.tail.map Int.ofNat := by
      rw [List.map_tail, ← taken, List.tail_take_eq_take_tail, Nat.add_sub_cancel]
    rw [acceptedTokenIds, tail, nonnegative, List.map_map]
    rfl

end VerifiedRound

/-- The target's hidden rows of a tree's nodes, after the committed tokens. A faithful target's
row of a node depends on the tokens up to the node only. -/
def FaithfulHidden (hiddenOf : List Nat → H) (nodeHidden : List Nat → Tree → Nat → H) : Prop :=
  ∀ (committed : List Nat) (current : Nat) (tree : Tree) (node : Nat) (path : List Nat),
    committed.getLast? = some current → tree.WellFormed current →
    tree.rootPath node = some path →
      nodeHidden committed tree node = hiddenOf (committed ++ tree.tokensAt path.tail)

/-- Committed tokens and the chains of the rounds that committed them. -/
inductive CommittedRun (nodeHidden : List Nat → Tree → Nat → H) (start : List Nat) :
    List (AcceptedChain H) → List Nat → Prop
  | nil : CommittedRun nodeHidden start [] start
  | snoc {chains : List (AcceptedChain H)} {committed : List Nat} (current : Nat)
      (round : VerifiedRound) (chain : AcceptedChain H)
      (earlier : CommittedRun nodeHidden start chains committed)
      (root : committed.getLast? = some current) (real : round.Real current)
      (returned : round.Returns (nodeHidden committed round.tree) chain) :
      CommittedRun nodeHidden start (chains ++ [chain]) (committed ++ chain.verifiedIds)

/-- The hidden rows of a verified chain are those of the tokens from the root on. -/
theorem verifiedHidden_tokens {hiddenOf : List Nat → H} {nodeHidden : List Nat → Tree → Nat → H}
    (faithful : FaithfulHidden hiddenOf nodeHidden) {committed : List Nat} {current : Nat}
    {round : VerifiedRound} {chain : AcceptedChain H} (root : committed.getLast? = some current)
    (real : round.Real current)
    (returned : round.Returns (nodeHidden committed round.tree) chain) :
    chain.verifiedHidden = (List.range' (committed.length - 1) (chain.acceptLength + 1)).map
      (fun index => hiddenOf ((committed ++ chain.verifiedIds).take (index + 1))) := by
  obtain ⟨path, taken, length, rooted⟩ := real.followed
  obtain ⟨selected, -, tokens⟩ := VerifiedRound.selected_path taken length
  have nonempty : 0 < committed.length := by
    cases committed with
    | nil => simp at root
    | cons => simp
  have drafted : chain.tokens = round.tree.tokensAt path.tail := returned.tokens.trans tokens
  have accepted : chain.acceptLength = round.acceptLength := by
    rw [AcceptedChain.acceptLength, drafted, Tree.tokensAt, List.length_map, List.length_tail,
      length, Nat.add_sub_cancel]
  rw [returned.hidden, selected, List.map_map]
  apply List.ext_getElem?
  intro position
  by_cases inside : position < path.length
  · have read := List.getElem?_eq_getElem inside
    have node := faithful committed current round.tree path[position] _ root real.wellFormed
      (rooted position _ read)
    have index : committed.length - 1 + position + 1 = committed.length + position := by omega
    have prefixed : (committed ++ chain.verifiedIds).take (committed.length + position) =
        committed ++ round.tree.tokensAt (path.take (position + 1)).tail := by
      rw [List.take_length_add_append, AcceptedChain.verifiedIds,
        List.take_append_of_le_length (by show position ≤ chain.acceptLength; omega), drafted,
        Tree.tokensAt, Tree.tokensAt, ← List.map_take, List.tail_take_eq_take_tail,
        Nat.add_sub_cancel]
    rw [List.getElem?_map, read, List.getElem?_map, List.getElem?_range' (by omega), Option.map_some,
      Option.map_some, Nat.one_mul, index, prefixed]
    exact congrArg some node
  · rw [List.getElem?_eq_none (by simpa using inside), List.getElem?_eq_none (by simp; omega)]

/-- The tokens committed after some rounds. -/
def committedAfter (start : List Nat) (chains : List (AcceptedChain H)) : List Nat :=
  start ++ chains.flatMap AcceptedChain.verifiedIds

/-- What the rounds of a run stored for the tokens they committed before the drafted one: the
hidden rows of the tokens from the root on, with the given shifts. -/
def PairedRounds (K : Nat) (hiddenOf : List Nat → H) (tokenShift : Nat) (positionShift : Nat → Nat)
    (start : List Nat) (chains : List (AcceptedChain H)) (records : List (RoundRecord H)) : Prop :=
  ∀ (round : Nat) (chain : AcceptedChain H) (record : RoundRecord H),
    chains[round]? = some chain → records[round]? = some record →
      record.appended.take (chain.acceptLength * K) =
        pairedSlots K hiddenOf (committedAfter start chains) tokenShift (positionShift round)
          ((committedAfter start (chains.take round)).length - 1) chain.acceptLength

/-- The rounds of a run stored what prefilling the committed tokens stores. -/
def PairsAsPrefill (K : Nat) (hiddenOf : List Nat → H) (start : List Nat)
    (chains : List (AcceptedChain H)) (records : List (RoundRecord H)) : Prop :=
  PairedRounds K hiddenOf 0 (fun _ => 0) start chains records

theorem CommittedRun.committed_eq {nodeHidden : List Nat → Tree → Nat → H} {start : List Nat}
    {chains : List (AcceptedChain H)} {committed : List Nat}
    (run : CommittedRun nodeHidden start chains committed) :
    committed = committedAfter start chains := by
  induction run with
  | nil => simp [committedAfter]
  | snoc current round chain earlier root real returned ih =>
    rw [ih]
    simp [committedAfter]

theorem committedAfter_concat (start : List Nat) (chains : List (AcceptedChain H))
    (chain : AcceptedChain H) :
    committedAfter start (chains ++ [chain]) = committedAfter start chains ++ chain.verifiedIds := by
  simp [committedAfter]

/-- A round's tokens are among those committed after later rounds. -/
theorem committedAfter_room (start : List Nat) {chains : List (AcceptedChain H)} {round : Nat}
    {chain : AcceptedChain H} (listed : chains[round]? = some chain) :
    (committedAfter start (chains.take round)).length + chain.acceptLength + 1 ≤
      (committedAfter start chains).length := by
  obtain ⟨inside, rfl⟩ := List.getElem?_eq_some_iff.mp listed
  have parts := congrArg (committedAfter start) (List.take_append_drop (round + 1) chains)
  rw [← parts, List.take_succ_eq_append_getElem inside]
  simp only [committedAfter, List.flatMap_append, List.length_append, List.flatMap_cons,
    List.flatMap_nil, List.append_nil, AcceptedChain.verifiedIds, AcceptedChain.acceptLength,
    List.length_singleton]
  omega

theorem chainSlots_take (startPosition : Int) (rows : List H) (tokens : List Nat)
    (paired : tokens.length = rows.length) {count : Nat} (few : count ≤ rows.length) :
    (chainSlots K startPosition rows tokens).take (count * K) =
      chainSlots K startPosition (rows.take count) (tokens.take count) := by
  have size : (chainSlots K startPosition (rows.take count) (tokens.take count)).length =
      count * K := by
    rw [chainSlots_length _ _ _ _ (by simp [paired]), List.length_take, Nat.min_eq_left few]
  have parts := chainSlots_append K startPosition (rows.take count) (rows.drop count)
    (tokens.take count) (tokens.drop count) (by simp [paired])
  rw [List.take_append_drop, List.take_append_drop] at parts
  rw [parts, ← size, List.take_left']
  rfl

theorem pairedSlots_append (hiddenOf : List Nat → H) (tokens more : List Nat)
    {tokenShift positionShift first count : Nat}
    (enough : first + 1 + tokenShift + count ≤ tokens.length) :
    pairedSlots K hiddenOf (tokens ++ more) tokenShift positionShift first count =
      pairedSlots K hiddenOf tokens tokenShift positionShift first count := by
  have rows : (List.range' first count).map
        (fun index => hiddenOf ((tokens ++ more).take (index + 1))) =
      (List.range' first count).map (fun index => hiddenOf (tokens.take (index + 1))) := by
    apply List.map_congr_left
    intro index member
    have inside := (List.mem_range'_1.mp member).2
    rw [List.take_append_of_le_length (by omega)]
  unfold pairedSlots
  rw [rows, List.drop_append_of_le_length (by omega), List.take_append_of_le_length (by simp; omega)]

theorem pairedSlots_first (hiddenOf : List Nat → H) (tokens : List Nat)
    {tokenShift positionShift first count : Nat} (positive : 0 < K) (some : 0 < count)
    (enough : first + 1 + tokenShift + count ≤ tokens.length) :
    (pairedSlots K hiddenOf tokens tokenShift positionShift first count)[0]?.map
      CrossSlot.position = .some (first + positionShift + 1 : Int) := by
  have inside : first + 1 + tokenShift < tokens.length := by omega
  have sized : ((tokens.drop (first + 1 + tokenShift)).take count).length =
      ((List.range' first count).map (fun index => hiddenOf (tokens.take (index + 1)))).length := by
    simp
    omega
  have row : ((List.range' first count).map (fun index => hiddenOf (tokens.take (index + 1))))[0]? =
      .some (hiddenOf (tokens.take (first + 1))) := by simp [some]
  have token : ((tokens.drop (first + 1 + tokenShift)).take count)[0]? =
      .some tokens[first + 1 + tokenShift] := by simp [some]
  have read := chainSlots_getElem? (first + positionShift : Nat) _ _ sized positive row token
  rw [Nat.zero_mul, Nat.zero_add] at read
  unfold pairedSlots
  rw [read]
  simp

section decoding

variable {hiddenOf : List Nat → H} {nodeHidden : List Nat → Tree → Nat → H}
  {prompt : List Nat} {firstToken : Nat} {chains : List (AcceptedChain H)} {committed : List Nat}

/-- The draft position runs ahead of the committed tokens by one more in every round. -/
theorem draftPosition_drifts (K : Nat) (hiddenOf : List Nat → H)
    (run : CommittedRun nodeHidden (prompt ++ [firstToken]) chains committed)
    (accepting : ∀ chain ∈ chains, 0 < chain.acceptLength) :
    ((promptContext K hiddenOf prompt firstToken).rounds K chains).draftPosition =
      committed.length + chains.length := by
  induction run with
  | nil => simp [DraftContext.rounds, promptContext]
  | @snoc chains committed current round chain earlier root real returned ih =>
    have before := ih (fun chain member =>
      accepting chain (List.mem_append_left _ member))
    have some : chain.acceptLength ≠ 0 :=
      Nat.ne_of_gt (accepting chain (List.mem_append_right _ (List.mem_singleton.mpr rfl)))
    have moved : (((promptContext K hiddenOf prompt firstToken).rounds K chains).refresh K
        chain).draftPosition = ((promptContext K hiddenOf prompt firstToken).rounds K
          chains).draftPosition + 1 + (chain.acceptLength + 1) := if_neg some
    rw [DraftContext.rounds_concat, moved, before]
    simp only [List.length_append, List.length_singleton, AcceptedChain.verifiedIds,
      AcceptedChain.acceptLength]
    omega

/-- A round that accepted something stores each hidden row with the token after the next one,
at a position that ran ahead. -/
theorem appended_drifts (faithful : FaithfulHidden hiddenOf nodeHidden) {context : DraftContext H}
    {current rounds : Nat} {round : VerifiedRound} {chain : AcceptedChain H}
    (root : committed.getLast? = some current) (real : round.Real current)
    (returned : round.Returns (nodeHidden committed round.tree) chain)
    (position : context.draftPosition = committed.length + rounds) (accepted : 0 < chain.acceptLength) :
    (context.appended K chain).take (chain.acceptLength * K) =
      pairedSlots K hiddenOf (committed ++ chain.verifiedIds) 1 (rounds + 2)
        (committed.length - 1) chain.acceptLength := by
  have nonempty : 0 < committed.length := by
    cases committed with
    | nil => simp at root
    | cons => simp
  have start : context.startPosition chain = committed.length - 1 + (rounds + 2) := by
    rw [DraftContext.startPosition, if_neg (Nat.ne_of_gt accepted), position]
    omega
  have rows : chain.verifiedHidden.take chain.acceptLength =
      (List.range' (committed.length - 1) chain.acceptLength).map
        (fun index => hiddenOf ((committed ++ chain.verifiedIds).take (index + 1))) := by
    rw [verifiedHidden_tokens faithful root real returned, ← List.map_take, List.range'_concat,
      List.take_left' (by simp)]
  have tokens : (chainTokens chain).take chain.acceptLength =
      ((committed ++ chain.verifiedIds).drop (committed.length - 1 + 1 + 1)).take
        chain.acceptLength := by
    have index : committed.length - 1 + 1 + 1 = committed.length + 1 := by omega
    rw [index, List.drop_length_add_append, chainTokens, List.take_append_of_le_length]
    rw [List.length_drop, AcceptedChain.verifiedIds, List.length_append]
    simp [AcceptedChain.acceptLength]
  rw [DraftContext.appended, chainSlots_take _ _ _ (chainTokens_length chain)
    (by rw [verifiedHidden_length]; omega), rows, tokens, start]
  rfl

/-- Every round that accepted something stores hidden rows with the token after the next one, at
positions that run ahead by one more in every round. -/
theorem records_drift (faithful : FaithfulHidden hiddenOf nodeHidden)
    (run : CommittedRun nodeHidden (prompt ++ [firstToken]) chains committed)
    (accepting : ∀ chain ∈ chains, 0 < chain.acceptLength) :
    PairedRounds K hiddenOf 1 (fun round => round + 2) (prompt ++ [firstToken]) chains
      ((promptContext K hiddenOf prompt firstToken).records K chains) := by
  induction run with
  | nil =>
    intro round chain record listed
    simp at listed
  | @snoc chains committed current verified last earlier root real returned ih =>
    have acceptingEarlier : ∀ chain ∈ chains, 0 < chain.acceptLength := fun chain member =>
      accepting chain (List.mem_append_left _ member)
    have before := ih acceptingEarlier
    have position := draftPosition_drifts K hiddenOf earlier acceptingEarlier
    have counted := (promptContext K hiddenOf prompt firstToken).records_length K chains
    intro round chain record listed recorded
    rw [DraftContext.records_concat] at recorded
    rw [committedAfter_concat]
    rcases Nat.lt_trichotomy round chains.length with old | rfl | beyond
    · rw [List.getElem?_append_left old] at listed
      rw [List.getElem?_append_left (by omega)] at recorded
      rw [List.take_append_of_le_length (Nat.le_of_lt old), before round chain record listed recorded]
      have room := committedAfter_room (prompt ++ [firstToken]) listed
      have rooted : 0 < (committedAfter (prompt ++ [firstToken]) (chains.take round)).length := by
        simp [committedAfter]
      exact (pairedSlots_append hiddenOf _ _ (by omega)).symm
    · obtain rfl : last = chain := by simpa using listed
      rw [← counted] at recorded
      obtain rfl : _ = record := by simpa using recorded
      rw [List.take_left' rfl, ← earlier.committed_eq]
      exact appended_drifts faithful root real returned position
        (accepting last (List.mem_append_right _ (List.mem_singleton.mpr rfl)))
    · rw [List.getElem?_eq_none (by simp; omega)] at listed
      cases listed

/-- The pairing of a run with rounds is not prefill's: the first slot of the first round is two
positions ahead. -/
theorem drifting_pairs_iff {records : List (RoundRecord H)} (counted : records.length = chains.length)
    (accepting : ∀ chain ∈ chains, 0 < chain.acceptLength)
    (drifts : PairedRounds K hiddenOf 1 (fun round => round + 2) (prompt ++ [firstToken]) chains
      records) :
    PairsAsPrefill K hiddenOf (prompt ++ [firstToken]) chains records ↔ K = 0 ∨ chains = [] := by
  constructor
  · intro pairs
    by_contra neither
    obtain ⟨positive, some⟩ := not_or.mp neither
    obtain ⟨chain, rest, rfl⟩ := List.exists_cons_of_ne_nil some
    have inside : 0 < records.length := by simp [counted]
    have recorded := List.getElem?_eq_getElem inside
    have accepted := accepting chain (List.mem_cons_self ..)
    have room := committedAfter_room (prompt ++ [firstToken])
      (show (chain :: rest)[0]? = .some chain from rfl)
    have rooted : 0 < (committedAfter (prompt ++ [firstToken])
        ((chain :: rest).take 0)).length := by simp [committedAfter]
    have ahead := congrArg (fun slots : List (CrossSlot H) => slots[0]?.map CrossSlot.position)
      ((drifts 0 chain _ rfl recorded).symm.trans (pairs 0 chain _ rfl recorded))
    dsimp only at ahead
    rw [pairedSlots_first hiddenOf _ (Nat.pos_of_ne_zero positive) accepted (by omega),
      pairedSlots_first hiddenOf _ (Nat.pos_of_ne_zero positive) accepted (by omega)] at ahead
    have same := Option.some.inj ahead
    push_cast at same
    omega
  · rintro (rfl | rfl) round chain record listed recorded
    · simp [pairedSlots, chainSlots_zero]
    · simp at listed

end decoding

/-- Prefill pairs each prompt token with the next one. Every decode round of either loop that
accepted something pairs a token with the one after the next, at positions that run ahead; so
the rounds store what prefill would only where there are none. -/
theorem decoded_context_drifts [Inhabited H] (K : Nat) (hiddenOf : List Nat → H)
    (nodeHidden : List Nat → Tree → Nat → H) (faithful : FaithfulHidden hiddenOf nodeHidden)
    (prompt : List Nat) (nonempty : prompt ≠ []) (firstToken : Nat)
    (chains : List (AcceptedChain H)) (committed : List Nat)
    (run : CommittedRun nodeHidden (prompt ++ [firstToken]) chains committed)
    (accepting : ∀ chain ∈ chains, 0 < chain.acceptLength) :
    (promptDraft K hiddenOf prompt firstToken).cache.Holds
        (prefilledSlots K hiddenOf (prompt ++ [firstToken]) 0 prompt.length ++
          positionSlots K (hiddenOf prompt) firstToken prompt.length) ∧
      PairedRounds K hiddenOf 1 (fun round => round + 2) (prompt ++ [firstToken]) chains
        ((promptDraft K hiddenOf prompt firstToken).rounds K chains).2 ∧
      (PairsAsPrefill K hiddenOf (prompt ++ [firstToken]) chains
        ((promptDraft K hiddenOf prompt firstToken).rounds K chains).2 ↔ K = 0 ∨ chains = []) ∧
      ∀ (batched : BatchedDrafts K H), (batchedSystem K H).Reachable batched →
        ∀ request ∈ batched.requests,
          request.prompt = promptContext K hiddenOf prompt firstToken → request.chains = chains →
            (PairsAsPrefill K hiddenOf (prompt ++ [firstToken]) chains request.records ↔
              K = 0 ∨ chains = []) := by
  have represents := promptDraft_represents (K := K) hiddenOf nonempty firstToken
  have drifts := records_drift (K := K) faithful run accepting
  have counted := (promptContext K hiddenOf prompt firstToken).records_length K chains
  have stored := (ScalarDraft.rounds_refresh represents
    (promptContext K hiddenOf prompt firstToken).drafted chains).2
  rw [stored]
  refine ⟨represents.holds, drifts, drifting_pairs_iff counted accepting drifts, ?_⟩
  intro batched reached request member samePrompt sameChains
  obtain ⟨row, inside, rfl⟩ := List.getElem_of_mem member
  have recorded := ((batchedSystem_tracks reached).rows row _ (List.getElem?_eq_getElem inside)).records
  rw [samePrompt, sameChains] at recorded
  rw [recorded]
  exact drifting_pairs_iff counted accepting drifts

/-- A target whose hidden row of a token is the list of tokens up to it. -/
def prefixHidden (committed : List Nat) (tree : Tree) (node : Nat) : List Nat :=
  committed ++ tree.tokensAt ((tree.rootPath node).getD []).tail

theorem prefixHidden_faithful : FaithfulHidden id prefixHidden := by
  intro committed current tree node path _ _ rooted
  simp [prefixHidden, rooted]

/-- A round that accepts the one guess after the first token. -/
def guessedRound : VerifiedRound := ⟨Tree.pair 7 8, [0, 1], 1, 9⟩

/-- Its chain: the rows of the root and of the guess. -/
def guessedChain : AcceptedChain (List Nat) := ⟨[8], 9, [[5, 7]], [5, 7, 8], false, rfl⟩

theorem guessed_run : CommittedRun prefixHidden ([5] ++ [7]) [guessedChain] [5, 7, 8, 9] := by
  have real : guessedRound.Real 7 := by
    refine ⟨Tree.pair_wellFormed 7 8, by decide, ?_⟩
    intro position within
    match position, within with
    | 0, _ => exact ⟨0, rfl⟩
    | 1, _ => exact ⟨1, rfl⟩
  exact .snoc 7 guessedRound guessedChain .nil rfl real ⟨by decide, rfl, by decide⟩

/-- The drift after the round of the example. -/
theorem decoded_context_drifts_guessed :
    ¬ PairsAsPrefill 2 id ([5] ++ [7]) [guessedChain]
      ((promptDraft 2 id [5] 7).rounds 2 [guessedChain]).2 := by
  have drifts := decoded_context_drifts 2 id prefixHidden prefixHidden_faithful [5] (by decide) 7
    [guessedChain] _ guessed_run (by decide)
  rw [drifts.2.2.1]
  decide

/-- The row of token 7 is stored with token 9 instead of 8, and at position 4 instead of 2. -/
theorem guessed_pairing :
    ((promptDraft 2 id [5] 7).rounds 2 [guessedChain]).2.map
        (fun record => record.appended.take 2) =
      [[⟨[5, 7], 9, 0, 4⟩, ⟨[5, 7], 9, 1, 5⟩]] ∧
    prefilledSlots 2 id (committedAfter ([5] ++ [7]) [guessedChain]) 1 1 =
      [⟨[5, 7], 8, 0, 2⟩, ⟨[5, 7], 8, 1, 3⟩] ∧
    ¬ ∀ (chains : List (AcceptedChain (List Nat))) (committed : List Nat),
      CommittedRun prefixHidden ([5] ++ [7]) chains committed →
        (∀ chain ∈ chains, 0 < chain.acceptLength) →
          PairsAsPrefill 2 id ([5] ++ [7]) chains ((promptDraft 2 id [5] 7).rounds 2 chains).2 := by
  have stored : ((promptDraft 2 id [5] 7).rounds 2 [guessedChain]).2.map
      (fun record => record.appended.take 2) = [[⟨[5, 7], 9, 0, 4⟩, ⟨[5, 7], 9, 1, 5⟩]] := by decide
  have wanted : prefilledSlots 2 id (committedAfter ([5] ++ [7]) [guessedChain]) 1 1 =
      [⟨[5, 7], 8, 0, 2⟩, ⟨[5, 7], 8, 1, 3⟩] := by decide
  refine ⟨stored, wanted, fun claimed => ?_⟩
  have pairs := claimed [guessedChain] _ guessed_run (by decide) 0 guessedChain _ rfl rfl
  revert pairs
  decide

end SpecBlock.Draft
