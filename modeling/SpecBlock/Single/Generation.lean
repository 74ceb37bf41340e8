import SpecBlock.Single.TreeVerify

/-!
# The single-request decode loop

`_generate_once` writes committed tokens into a pre-sized buffer behind the
prompt, while the target cache receives the verified root and accepted path. The
two are shifted against each other by the first token: the prefill's token roots
the first tree and enters the cache, but is written to the buffer only when it
is the tokenizer's end-of-sequence token.

`generateOnce_exact` says for which targets and prompts the returned ids are the
plain decoding nevertheless.
-/

namespace SpecBlock.Single

open Autoregressive Batch

variable {H : Type}

/-- Limits and stop tokens of one call. The loop itself compares with the
tokenizer's token only; `generate_conversations` also stops at the others. -/
structure Settings where
  maxNewTokens : Nat
  eosTokenId : Nat
  generationEosIds : List Nat

/-- Membership in the set `_eos_ids` collects. -/
def Settings.isEos (settings : Settings) (token : Nat) : Bool :=
  token == settings.eosTokenId || settings.generationEosIds.contains token

/-- `buffer[start:start+len(values)] = values`. -/
def writeAt (buffer : List Nat) (start : Nat) (values : List Nat) : List Nat :=
  buffer.take start ++ values ++ buffer.drop (start + values.length)

/-- Target passes of one call: logits enter through their argmax. The cache is
given by the tokens whose entries it holds. -/
structure Target where
  prefill : List Nat → Nat
  argmax : Nat → List Nat → Tree → Nat → Nat

/-- The drafter: a tree for the given iteration and root token. -/
abbrev Draft := Nat → Nat → Tree

/-- Loop variables. -/
structure State where
  inputIdsBuf : List Nat
  curLen : Nat
  cached : List Nat
  currentToken : Nat
  iterations : Nat
  acceptLengthsRaw : List Nat

/-- Cache entries after cropping: the prefix and the selected staged entries. -/
def cropCache (cached tokens : List Nat) (prevInputLen : Nat) (selected : List Int) : List Nat :=
  let entries := cached ++ tokens
  let selectIndices := selected.map (fun index => index.toNat + prevInputLen)
  entries.take prevInputLen ++ selectIndices.map (fun index => entries.getD index 0)

/-- What committing a verified path leaves behind. -/
structure Commit where
  inputIdsBuf : List Nat
  curLen : Nat
  acceptLength : Nat
  allTokens : List Nat

/-- Commit the accepted tokens that fit, and the bonus token if room remains. -/
def commitTokens (inputIdsBuf : List Nat) (curLen remaining : Nat) (verified : Accepted H) :
    Commit :=
  let acceptLength := min verified.acceptLength remaining
  let acceptedTokenIds := verified.acceptedTokenIds.take acceptLength
  let acceptedBuf :=
    if 0 < acceptLength then writeAt inputIdsBuf curLen acceptedTokenIds else inputIdsBuf
  let acceptedLen := curLen + acceptLength
  if acceptLength < remaining then
    ⟨writeAt acceptedBuf acceptedLen [verified.nextToken], acceptedLen + 1, acceptLength,
      acceptedTokenIds ++ [verified.nextToken]⟩
  else ⟨acceptedBuf, acceptedLen, acceptLength, acceptedTokenIds⟩

/-- One pass through the loop body and its end-of-sequence flag, with strict
acceptance. -/
def decodeStep (settings : Settings) (target : Target) (draft : Draft) (inputLength : Nat)
    (state : State) : State × Bool :=
  let tree := draft state.iterations state.currentToken
  let verified := treeVerify 1 tree (target.argmax state.iterations state.cached tree)
    (fun _ => []) (fun _ => ([] : List Unit))
  let remaining := settings.maxNewTokens - (state.curLen - inputLength)
  let commit := commitTokens state.inputIdsBuf state.curLen remaining verified
  ({ inputIdsBuf := commit.inputIdsBuf
     curLen := commit.curLen
     cached := cropCache state.cached tree.tokens state.curLen verified.selectedPathIndices
     currentToken := verified.nextToken
     iterations := state.iterations + 1
     acceptLengthsRaw := state.acceptLengthsRaw ++ [commit.acceptLength] },
    commit.allTokens.contains settings.eosTokenId)

/-- The loop runs while the budget is open and no committed token ended the
sequence. Running out of the first argument is an error of the model only. -/
def decodeLoop (settings : Settings) (target : Target) (draft : Draft) (inputLength : Nat) :
    Nat → State → Except String State
  | 0, state =>
      if state.curLen - inputLength < settings.maxNewTokens then .error "round bound exceeded"
      else .ok state
  | fuel + 1, state =>
      if state.curLen - inputLength < settings.maxNewTokens then
        let (next, eosFlag) := decodeStep settings target draft inputLength state
        if settings.maxNewTokens ≤ next.curLen - inputLength then .ok next
        else if eosFlag then .ok next
        else decodeLoop settings target draft inputLength fuel next
      else .ok state

/-- The reported metrics: the early return for an immediate stop has no ids. -/
structure Response where
  totalTokens : Nat
  outputTokenIds : Option (List Nat)
  deriving DecidableEq

/-- `_generate_once` at temperature zero. -/
def generateOnce (settings : Settings) (target : Target) (draft : Draft) (fuel : Nat)
    (prompt : List Nat) : Except String Response :=
  let inputLength := prompt.length
  let inputIdsBuf := prompt ++ List.replicate (settings.maxNewTokens + 16) 0
  let firstToken := target.prefill prompt
  if firstToken = settings.eosTokenId then
    let outputIds := ((writeAt inputIdsBuf inputLength [firstToken]).take (inputLength + 1)).drop
      inputLength
    .ok ⟨outputIds.length, none⟩
  else do
    let state ← decodeLoop settings target draft inputLength fuel
      { inputIdsBuf := inputIdsBuf
        curLen := inputLength
        cached := prompt
        currentToken := firstToken
        iterations := 0
        acceptLengthsRaw := [] }
    let outputIds := (state.inputIdsBuf.take state.curLen).drop inputLength
    return ⟨outputIds.length, some outputIds⟩

/-- The assumption on the target: prefill and every tree node return the greedy
next token of the sequence they stand for, the cached tokens and the node's path. -/
structure Target.Faithful (target : Target) (next : List Nat → Nat) : Prop where
  prefill : ∀ prompt, target.prefill prompt = next prompt
  verify : ∀ iteration cached tree node path, tree.rootPath node = some path →
    target.argmax iteration cached tree node = next (cached ++ tree.tokensAt path)

/-- The assumption on the drafter: trees are well formed and rooted at the
current token. -/
def Draft.WellFormed (draft : Draft) : Prop :=
  ∀ iteration current, (draft iteration current).WellFormed current

/-- Writing inside the buffer extends the filled part by the values. -/
theorem writeAt_take (buffer : List Nat) (start : Nat) (values : List Nat)
    (fits : start + values.length ≤ buffer.length) :
    (writeAt buffer start values).take (start + values.length) = buffer.take start ++ values := by
  have filled : (buffer.take start ++ values).length = start + values.length := by
    rw [List.length_append, List.length_take]
    omega
  rw [writeAt, ← filled, List.take_left]

theorem writeAt_length (buffer : List Nat) (start : Nat) (values : List Nat)
    (fits : start + values.length ≤ buffer.length) :
    (writeAt buffer start values).length = buffer.length := by
  simp only [writeAt, List.length_append, List.length_take, List.length_drop]
  omega

theorem writeAt_nil (buffer : List Nat) (start : Nat) : writeAt buffer start [] = buffer := by
  simp [writeAt]

/-- Committing writes the part of the proposal that fits behind what is there. -/
theorem commitTokens_spec (inputIdsBuf : List Nat) (curLen remaining : Nat)
    (verified : Accepted H) (lengths : verified.acceptedTokenIds.length = verified.acceptLength)
    (fits : curLen + remaining ≤ inputIdsBuf.length) :
    (commitTokens inputIdsBuf curLen remaining verified).allTokens =
        verified.proposed.take remaining ∧
      (commitTokens inputIdsBuf curLen remaining verified).inputIdsBuf.length =
        inputIdsBuf.length ∧
      (commitTokens inputIdsBuf curLen remaining verified).curLen =
        curLen + (verified.proposed.take remaining).length ∧
      (commitTokens inputIdsBuf curLen remaining verified).inputIdsBuf.take
          (commitTokens inputIdsBuf curLen remaining verified).curLen =
        inputIdsBuf.take curLen ++ verified.proposed.take remaining := by
  have proposedLength : verified.proposed.length = verified.acceptLength + 1 := by
    simp [Accepted.proposed, lengths]
  -- The guard on the accepted write only skips writing nothing.
  have accepted : (if 0 < min verified.acceptLength remaining then
      writeAt inputIdsBuf curLen
        (verified.acceptedTokenIds.take (min verified.acceptLength remaining))
      else inputIdsBuf) = writeAt inputIdsBuf curLen
        (verified.acceptedTokenIds.take (min verified.acceptLength remaining)) := by
    split
    next => rfl
    next none => rw [Nat.eq_zero_of_not_pos none, List.take_zero, writeAt_nil]
  have takenLength : (verified.acceptedTokenIds.take
      (min verified.acceptLength remaining)).length = min verified.acceptLength remaining := by
    rw [List.length_take]
    omega
  have front := writeAt_take inputIdsBuf curLen
    (verified.acceptedTokenIds.take (min verified.acceptLength remaining)) (by omega)
  have kept := writeAt_length inputIdsBuf curLen
    (verified.acceptedTokenIds.take (min verified.acceptLength remaining)) (by omega)
  rw [takenLength] at front
  simp only [commitTokens, accepted]
  by_cases bonus : min verified.acceptLength remaining < remaining
  · have whole : verified.proposed.take remaining = verified.acceptedTokenIds.take
        (min verified.acceptLength remaining) ++ [verified.nextToken] := by
      rw [List.take_of_length_le (by omega), List.take_of_length_le (by omega), Accepted.proposed]
    rw [if_pos bonus, whole]
    have back := writeAt_take _ (curLen + min verified.acceptLength remaining)
      [verified.nextToken] (by rw [kept, List.length_singleton]; omega)
    refine ⟨rfl, ?_, ?_, ?_⟩
    · rw [writeAt_length _ _ _ (by rw [kept, List.length_singleton]; omega), kept]
    · rw [List.length_append, takenLength, List.length_singleton, Nat.add_assoc]
    · rw [List.length_singleton, front] at back
      rw [back, List.append_assoc]
  · have part : verified.proposed.take remaining = verified.acceptedTokenIds.take
        (min verified.acceptLength remaining) := by
      rw [Accepted.proposed, List.take_append_of_le_length (by omega)]
      congr 1
      omega
    rw [if_neg bonus, part]
    exact ⟨rfl, kept, by rw [takenLength], front⟩

/-- Cropping keeps the cached prefix and appends the tokens of the path. -/
theorem cropCache_path {verified : Accepted H} {tree : Tree} {path : List Nat}
    (cached : List Nat) (onTree : verified.OnTree tree path) :
    cropCache cached tree.tokens cached.length verified.selectedPathIndices =
      cached ++ tree.tokensAt path := by
  rw [cropCache, onTree.indices, List.take_left, List.map_map, List.map_map, Tree.tokensAt]
  congr 1
  apply List.map_congr_left
  intro node _
  simp [List.getD_eq_getElem?_getD, List.getElem?_append_right]

section step

variable (settings : Settings) (next : List Nat → Nat) (prompt : List Nat)

/-- The buffer holds the prompt and the committed tokens, which follow the
target after the first token. -/
structure State.Written (state : State) (committed : List Nat) : Prop where
  size : state.inputIdsBuf.length = prompt.length + settings.maxNewTokens + 16
  buffer : state.inputIdsBuf.take state.curLen = prompt ++ committed
  length : state.curLen = prompt.length + committed.length
  follows : Follows next (prompt ++ [next prompt]) committed
  bounded : committed.length ≤ settings.maxNewTokens

/-- Between rounds the cache and the current token hold the prompt, the first
token and everything committed. -/
structure State.Ready (state : State) (committed : List Nat) : Prop extends
    State.Written settings next prompt state committed where
  cache : state.cached ++ [state.currentToken] = prompt ++ next prompt :: committed
  running : settings.eosTokenId ∉ committed

variable {settings next prompt}

/-- A step inside the budget commits the proposal's part that fits. The cache
takes over root and accepted path, so it is ready again unless the budget is
spent or the sequence ended. -/
theorem decodeStep_spec {target : Target} {draft : Draft} {state : State} {committed : List Nat}
    (ready : state.Ready settings next prompt committed)
    (room : committed.length < settings.maxNewTokens)
    (faithful : target.Faithful next) (trees : draft.WellFormed) :
    ∃ more, more ≠ [] ∧
      (decodeStep settings target draft prompt.length state).1.Written settings next prompt
        (committed ++ more) ∧
      (decodeStep settings target draft prompt.length state).2 =
        more.contains settings.eosTokenId ∧
      ((committed ++ more).length < settings.maxNewTokens → settings.eosTokenId ∉ more →
        (decodeStep settings target draft prompt.length state).1.Ready settings next prompt
          (committed ++ more)) := by
  obtain ⟨path, onTree, greedy⟩ := treeVerify_spec (draft state.iterations state.currentToken)
    state.currentToken (target.argmax state.iterations state.cached
      (draft state.iterations state.currentToken)) (fun _ => []) (fun _ => ([] : List Unit))
    (trees _ _)
  have follows := greedy.follows onTree (trees _ _) (faithful.verify _ _ _)
  rw [ready.cache] at follows
  have cachedLength : state.cached.length = state.curLen := by
    have lengths := congrArg List.length ready.cache
    simp only [List.length_append, List.length_cons, List.length_nil] at lengths
    have length := ready.length
    omega
  obtain ⟨remaining, budget⟩ : ∃ remaining, settings.maxNewTokens =
      committed.length + remaining := ⟨_, (Nat.add_sub_of_le room.le).symm⟩
  have left : settings.maxNewTokens - (state.curLen - prompt.length) = remaining := by
    have length := ready.length
    omega
  have wellFormed := trees state.iterations state.currentToken
  have size := ready.size
  have length := ready.length
  simp only [decodeStep, left]
  generalize treeVerify 1 (draft state.iterations state.currentToken) _ _ _ = verified at *
  generalize draft state.iterations state.currentToken = tree at *
  obtain ⟨all, kept, advanced, buffer⟩ := commitTokens_spec state.inputIdsBuf state.curLen
    remaining verified onTree.tokens_length (by omega)
  have proposedLength : verified.proposed.length = verified.acceptLength + 1 := by
    simp [Accepted.proposed, onTree.tokens_length]
  have takenLength : (verified.proposed.take remaining).length ≤ remaining := by
    rw [List.length_take]
    omega
  have written : ∀ cached token iterations raw, State.Written settings next prompt
      ⟨(commitTokens state.inputIdsBuf state.curLen remaining verified).inputIdsBuf,
        (commitTokens state.inputIdsBuf state.curLen remaining verified).curLen,
        cached, token, iterations, raw⟩ (committed ++ verified.proposed.take remaining) := by
    intro cached token iterations raw
    refine ⟨kept.trans size, ?_, ?_, ?_, ?_⟩
    · simp only [buffer, ready.buffer, List.append_assoc]
    · simp only [advanced, List.length_append]
      omega
    · rw [follows_append]
      refine ⟨ready.follows, follows_take _ _ _ _ ?_⟩
      simpa using follows
    · rw [List.length_append]
      omega
  refine ⟨verified.proposed.take remaining, ?_, written _ _ _ _, by rw [all], ?_⟩
  · exact List.ne_nil_of_length_pos (by rw [List.length_take]; omega)
  · intro short unstopped
    -- Short of the budget the whole proposal was committed.
    have whole : verified.proposed.take remaining = verified.proposed := by
      apply List.take_of_length_le
      rw [List.length_append, List.length_take] at short
      omega
    refine ⟨written _ _ _ _, ?_, ?_⟩
    · have shifted : state.cached ++ (state.currentToken :: verified.acceptedTokenIds) ++
          [verified.nextToken] = (state.cached ++ [state.currentToken]) ++ verified.proposed := by
        simp [Accepted.proposed]
      rw [← cachedLength, cropCache_path state.cached onTree, onTree.spelled wellFormed, whole,
        shifted, ready.cache]
      simp
    · rw [List.mem_append, not_or]
      exact ⟨ready.running, unstopped⟩

/-- From a ready state the loop returns a state whose committed tokens follow
the target after the first token, and fill the budget or contain the stop. -/
theorem decodeLoop_spec {target : Target} {draft : Draft} (fuel : Nat) {state : State}
    {committed : List Nat} (ready : state.Ready settings next prompt committed)
    (room : committed.length < settings.maxNewTokens)
    (enough : settings.maxNewTokens ≤ committed.length + fuel)
    (faithful : target.Faithful next) (trees : draft.WellFormed) :
    ∃ final output, decodeLoop settings target draft prompt.length fuel state = .ok final ∧
      final.Written settings next prompt output ∧ output ≠ [] ∧
      (output.length = settings.maxNewTokens ∨ settings.eosTokenId ∈ output) := by
  induction fuel generalizing state committed with
  | zero => omega
  | succ fuel ih =>
    obtain ⟨more, some_more, written, flag, again⟩ := decodeStep_spec ready room faithful trees
    have length := ready.length
    have advanced := written.length
    have bounded := written.bounded
    have grown : 0 < more.length := List.length_pos_iff.mpr some_more
    have nonempty : committed ++ more ≠ [] := by simp [some_more]
    rw [decodeLoop, if_pos (by omega)]
    by_cases spent : settings.maxNewTokens ≤
        (decodeStep settings target draft prompt.length state).1.curLen - prompt.length
    · refine ⟨_, committed ++ more, by simp only [spent, if_true], written, nonempty, .inl ?_⟩
      omega
    · by_cases stopped : settings.eosTokenId ∈ more
      · refine ⟨_, committed ++ more, ?_, written, nonempty,
          .inr (List.mem_append_right _ stopped)⟩
        simp only [spent, if_false, flag, List.contains_iff_mem.mpr stopped, if_true]
      · have short : (committed ++ more).length < settings.maxNewTokens := by omega
        obtain ⟨final, output, decoded, rest⟩ :=
          ih (again short stopped) short (by rw [List.length_append]; omega)
        refine ⟨final, output, ?_, rest⟩
        have flagged : more.contains settings.eosTokenId = false := by simpa using stopped
        simpa only [spent, if_false, flag, flagged, Bool.false_eq_true] using decoded

/-- What is returned unless the first token ends the sequence. -/
theorem generateOnce_output {target : Target} {draft : Draft} (fuel : Nat)
    (limit : 1 ≤ settings.maxNewTokens) (enough : settings.maxNewTokens ≤ fuel)
    (faithful : target.Faithful next) (trees : draft.WellFormed)
    (started : next prompt ≠ settings.eosTokenId) :
    ∃ output, generateOnce settings target draft fuel prompt = .ok ⟨output.length, some output⟩ ∧
      output ≠ [] ∧ output.length ≤ settings.maxNewTokens ∧
      Follows next (prompt ++ [next prompt]) output ∧
      (output.length = settings.maxNewTokens ∨ settings.eosTokenId ∈ output) := by
  have ready : State.Ready settings next prompt
      ⟨prompt ++ List.replicate (settings.maxNewTokens + 16) 0, prompt.length, prompt,
        target.prefill prompt, 0, []⟩ [] := by
    refine ⟨⟨?_, ?_, ?_, trivial, ?_⟩, ?_, ?_⟩
    · simp [Nat.add_assoc]
    · simp
    · simp
    · simp
    · simp [faithful.prefill]
    · simp
  obtain ⟨final, output, decoded, written, nonempty, ended⟩ :=
    decodeLoop_spec fuel ready limit (by simpa using enough) faithful trees
  refine ⟨output, ?_, nonempty, written.bounded, written.follows, ended⟩
  have outputIds : (final.inputIdsBuf.take final.curLen).drop prompt.length = output := by
    rw [written.buffer, List.drop_left]
  simp only [generateOnce, faithful.prefill, if_neg started]
  rw [faithful.prefill] at decoded
  simp only [decoded, bind, Except.bind, pure, Except.pure, outputIds]

end step

end SpecBlock.Single
