import SpecBlock.Batch.Eagle3Rounds

/-!
# What the batched EAGLE3 loop returns

The prefill leaves every request ready: its cache holds the entries of its
prompt, and its tree grows from the first greedy token. A request's own round
commits tokens that follow the target, keeps it ready when it goes on, and
otherwise has completed the plain decoding or passed the longest logical length.
With the agreement of a batch round and the requests' own rounds this settles
every run of the loop, request by request.
-/

namespace SpecBlock.Eagle3

open Batch Causal Autoregressive

variable {Kv : Type} {limits : Eagle3Limits} {draft : Drafter} {net : Network Nat Kv} {zero : Kv}
  {padTokenId : Nat}

section own

variable {state : Request Kv}

/-- The accepted tokens begin with the tree's root and follow the target. -/
theorem ownTokens_follow (ready : Ready net state) :
    ownTokens net state ≠ [] ∧ Autoregressive.Follows net.next state.inputIds (ownTokens net state) := by
  have wellFormed := ready.verifiable.wellFormed
  obtain ⟨branch, length⟩ := @acceptedPath_branch state.tree (ownChoice net state) _ wellFormed
  have nonempty : acceptedPath state.tree (ownChoice net state) ≠ [] := List.ne_nil_of_length_pos (by omega)
  refine ⟨fun none => nonempty (List.map_eq_nil_iff.mp none), (follows_iff_getElem ..).mpr ?_⟩
  intro position token read
  rw [ownTokens, ownPath, Tree.tokensAt, List.getElem?_map, Option.map_eq_some_iff] at read
  obtain ⟨node, onPath, rfl⟩ := read
  rw [ownTokens, ownPath, Tree.tokensAt, ← List.map_take]
  cases position with
  | zero =>
    obtain rfl : 0 = node := Option.some.inj ((acceptedPath_root wellFormed).symm.trans onPath)
    have current := wellFormed.root
    rw [List.head?_eq_getElem?] at current
    rw [List.getD_eq_getElem?_getD, current, List.take_zero, List.map_nil, List.append_nil]
    rfl
  | succ position =>
    have within := (List.getElem?_eq_some_iff.mp onPath).1
    have parent := List.getElem?_eq_getElem (Nat.lt_of_succ_lt within)
    rw [acceptedPath_agrees parent onPath, ownChoice, branch position _ parent]
    rfl

/-- The cut at the first stop token, and whether there was one. -/
theorem stopCut_eq (isStop : Nat → Bool) (tokens : List Nat) :
    (tokens.findIdx? isStop).elim tokens (fun offset => tokens.take (offset + 1)) =
        takeUntilEos isStop tokens ∧
      (tokens.findIdx? isStop).isSome = (takeUntilEos isStop tokens).any isStop := by
  induction tokens with
  | nil => exact ⟨rfl, rfl⟩
  | cons token rest ih =>
    rw [List.findIdx?_cons]
    cases stopped : isStop token with
    | true => simp [takeUntilEos, stopped]
    | false =>
      obtain ⟨cut, ended⟩ := ih
      have skip : takeUntilEos isStop (token :: rest) = token :: takeUntilEos isStop rest := by
        simp [takeUntilEos, stopped]
      rw [skip, List.any_cons, stopped, Bool.false_or, ← ended, ← cut]
      cases rest.findIdx? isStop <;> exact ⟨rfl, rfl⟩

/-- What a run keeps of the request of a prompt. Its input is the prompt and an output that follows
the target, counted by the lengths of its rounds, of which none but the last may have passed the
longest logical length. While it runs it is ready, short of the limit and free of stop tokens; when
it has finished, its output is the plain decoding, or the part of it up to the round that passed the
longest logical length. -/
structure Serves (limits : Eagle3Limits) (net : Network Nat Kv) (row : Nat) (prompt : List Nat)
    (state : Request Kv) : Prop where
  conversation : state.conversation = row
  promptLen : state.promptLen = prompt.length
  input : state.inputIds = prompt ++ state.outputIds
  generated : state.generatedTokens = state.outputIds.length
  follows : Autoregressive.Follows net.next prompt state.outputIds
  rounds : state.acceptLengthsRaw.length = state.iterations
  counted : (state.acceptLengthsRaw.map (· + 1)).sum = state.generatedTokens
  within : ∀ count, 0 < count → count < state.iterations →
    ((prompt.length + ((state.acceptLengthsRaw.take count).map (· + 1)).sum : Nat) : Int) ≤
      limits.maxLogicalLength
  running : state.finished = false → Ready net state ∧
    (∀ token ∈ state.outputIds, limits.isStop token = false) ∧
    state.generatedTokens < limits.maxNewTokens ∧
    (0 < state.iterations → (state.inputIds.length : Int) ≤ limits.maxLogicalLength)
  done : state.finished = true →
    state.outputIds <+: decode net.next limits.isStop prompt limits.maxNewTokens ∧
    (state.outputIds = decode net.next limits.isStop prompt limits.maxNewTokens ∨
      limits.maxLogicalLength < state.inputIds.length)

/-- A request's own round, with the tokens it keeps spelled out. -/
theorem ownRound_eq {front rest : List Nat} {last remaining : Nat}
    (budget : limits.maxNewTokens = state.generatedTokens + remaining)
    (copied : takeUntilEos limits.isStop ((ownTokens net state).take remaining) = front ++ [last])
    (whole : (ownTokens net state).take remaining = front ++ [last] ++ rest)
    (unstopped : ∀ token ∈ front, limits.isStop token = false) :
    ownRound limits draft net state =
      let finished := limits.isStop last ||
        decide (limits.maxNewTokens ≤ state.generatedTokens + (front ++ [last]).length) ||
        decide (limits.maxLogicalLength < (state.inputIds ++ (front ++ [last])).length)
      { state with
        inputIds := state.inputIds ++ (front ++ [last])
        targetCache := net.chain (state.inputIds ++ ownTokens net state)
        tree := if finished then state.tree else draft state.conversation
          (state.inputIds ++ (front ++ [last])) (net.next (state.inputIds ++ ownTokens net state))
        iterations := state.iterations + 1
        generatedTokens := state.generatedTokens + (front ++ [last]).length
        acceptLengthsRaw := state.acceptLengthsRaw ++ [(front ++ [last]).length - 1]
        finished := finished } := by
  have sliced : sliceUpTo (ownTokens net state) ((limits.maxNewTokens : Int) - state.generatedTokens) =
      (ownTokens net state).take remaining := by
    rw [sliceUpTo, if_pos (by omega)]
    congr 1
    omega
  obtain ⟨cut, ended⟩ := stopCut_eq limits.isStop ((ownTokens net state).take remaining)
  have stopped : (front ++ [last]).any limits.isStop = limits.isStop last := by
    have clear : front.any limits.isStop = false := by
      rw [List.any_eq_false]
      exact fun token member => by simp [unstopped token member]
    rw [List.any_append, clear, Bool.false_or, List.any_cons, List.any_nil, Bool.or_false]
  have short : (front ++ [last]).length ≤ (ownTokens net state).length := by
    have lengths := congrArg List.length whole
    rw [List.length_take, List.length_append] at lengths
    omega
  have least : min ((ownTokens net state).length - 1) ((front ++ [last]).length - 1) =
      (front ++ [last]).length - 1 := by omega
  rw [ownRound, commitAccepted]
  simp only [sliced, cut, ended, copied, stopped, least]

/-- Tokens that follow the target up to the first stop token are an initial part of the plain decoding,
and all of it once they fill the limit or end with that token. -/
theorem decode_reached {next : List Nat → Nat} {isStop : Nat → Bool} {prompt front : List Nat}
    {last limit : Nat} (follows : Autoregressive.Follows next prompt (front ++ [last]))
    (unstopped : ∀ token ∈ front, isStop token = false) (bounded : front.length < limit) :
    front ++ [last] <+: decode next isStop prompt limit ∧
      (front.length + 1 = limit ∨ isStop last = true →
        front ++ [last] = decode next isStop prompt limit) := by
  have whole (complete : front.length + 1 = limit ∨ isStop last = true) :
      front ++ [last] = decode next isStop prompt limit :=
    (decode_complete next isStop prompt front last limit follows unstopped bounded complete).symm
  refine ⟨?_, whole⟩
  cases stopped : isStop last with
  | true => exact whole (.inr stopped) ▸ List.prefix_rfl
  | false =>
    refine isPrefix_decode next isStop prompt _ limit follows ?_ (by simpa using bounded)
    intro token member
    rcases List.mem_append.mp member with earlier | final
    · exact unstopped token earlier
    · exact List.mem_singleton.mp final ▸ stopped

theorem ownRound_serves {row : Nat} {prompt : List Nat}
    (drafts : ∀ row input next, Verifiable (draft row input next) next)
    (serves : Serves limits net row prompt state) (runs : state.finished = false) :
    Serves limits net row prompt (ownRound limits draft net state) := by
  obtain ⟨ready, unstopped, short, within⟩ := serves.running runs
  obtain ⟨started, follows⟩ := ownTokens_follow ready
  obtain ⟨remaining, budget⟩ : ∃ remaining, limits.maxNewTokens = state.generatedTokens + remaining :=
    ⟨_, (Nat.add_sub_of_le short.le).symm⟩
  have nonempty : (ownTokens net state).take remaining ≠ [] := by
    have tokens := List.length_pos_iff.mpr started
    exact List.ne_nil_of_length_pos (by rw [List.length_take]; omega)
  obtain ⟨front, last, rest, copied, whole, clear, ended⟩ :=
    takeUntilEos_split limits.isStop ((ownTokens net state).take remaining) nonempty
  have round := @ownRound_eq _ limits draft net state front rest last remaining budget copied whole clear
  have lengths := congrArg List.length whole
  rw [List.length_take, List.length_append] at lengths
  have output : (state.inputIds ++ (front ++ [last])).drop state.promptLen =
      state.outputIds ++ (front ++ [last]) := by
    conv_lhs => rw [serves.input, serves.promptLen, List.append_assoc, List.drop_left]
  have keptFollows : Autoregressive.Follows net.next (prompt ++ state.outputIds) (front ++ [last]) := by
    have part := follows_take net.next _ _ remaining follows
    rw [whole, follows_append, serves.input] at part
    exact part.1
  have allFollow : Autoregressive.Follows net.next prompt (state.outputIds ++ (front ++ [last])) :=
    (follows_append ..).mpr ⟨serves.follows, keptFollows⟩
  have total : state.outputIds.length + (front ++ [last]).length ≤ limits.maxNewTokens := by
    rw [budget, serves.generated]
    omega
  have produced := serves.generated
  have lastLength : (front ++ [last]).length = front.length + 1 := by simp
  have frontLength : (state.outputIds ++ front).length = state.outputIds.length + front.length := by simp
  have outputs : (ownRound limits draft net state).outputIds = state.outputIds ++ (front ++ [last]) := by
    rw [Request.outputIds, round]
    exact output
  refine ⟨?_, ?_, ?_, ?_, ?_, ?_, ?_, ?_, ?_, ?_⟩
  all_goals try rw [outputs]
  all_goals try simp only [round]
  · exact serves.conversation
  · exact serves.promptLen
  · exact (congrArg (· ++ (front ++ [last])) serves.input).trans (List.append_assoc ..)
  · exact (congrArg (· + (front ++ [last]).length) produced).trans (List.length_append ..).symm
  · exact allFollow
  · rw [List.length_append, serves.rounds, List.length_singleton]
  · rw [List.map_append, List.sum_append, serves.counted, List.map_singleton, List.sum_singleton,
      Nat.sub_add_cancel (by simp)]
  · intro count positive earlier
    rw [List.take_append_of_le_length (by rw [serves.rounds]; omega)]
    rcases Nat.lt_or_eq_of_le (Nat.le_of_lt_succ earlier) with before | here
    · exact serves.within count positive before
    · have all : state.acceptLengthsRaw.take count = state.acceptLengthsRaw :=
        List.take_of_length_le (by rw [serves.rounds, here])
      have bound := within (here ▸ positive)
      rw [serves.input, List.length_append, ← serves.generated] at bound
      rw [all, serves.counted]
      exact bound
  · intro goesOn
    simp only [Bool.or_eq_false_iff, decide_eq_false_iff_not, Nat.not_le, Int.not_lt] at goesOn
    obtain ⟨⟨notStop, notFull⟩, notLong⟩ := goesOn
    have exhausted : rest = [] := ended.resolve_right (by simp [notStop])
    have all : front ++ [last] = ownTokens net state := by
      rw [exhausted, List.append_nil] at whole
      rw [← whole, List.take_of_length_le]
      rw [exhausted, List.length_nil] at lengths
      omega
    refine ⟨⟨?_, ?_⟩, ?_, notFull, fun _ => notLong⟩
    · rw [all] at notFull notLong
      simp only [notStop, all, decide_eq_false (Nat.not_le.mpr notFull),
        decide_eq_false (Int.not_lt.mpr notLong), Bool.or_false, Bool.false_eq_true, if_false]
      exact drafts _ _ _
    · simp only [all]
    · intro token member
      rcases List.mem_append.mp member with earlier | kept
      · exact unstopped token earlier
      · rcases List.mem_append.mp kept with inFront | final
        · exact clear token inFront
        · exact List.mem_singleton.mp final ▸ notStop
  · intro finished
    have extended : ∀ token ∈ state.outputIds ++ front, limits.isStop token = false := by
      intro token member
      exact (List.mem_append.mp member).elim (unstopped token) (clear token)
    obtain ⟨part, whole⟩ := @decode_reached net.next limits.isStop prompt (state.outputIds ++ front) last
      limits.maxNewTokens (by rwa [List.append_assoc]) extended (by omega)
    rw [List.append_assoc] at part whole
    refine ⟨part, ?_⟩
    simp only [Bool.or_eq_true, decide_eq_true_eq] at finished
    rcases finished with (stop | full) | longer
    · exact .inl (whole (.inr stop))
    · exact .inl (whole (.inl (by omega)))
    · exact .inr longer

end own

section prefill

variable (draft net)

/-- A request after the prefill. -/
def initialState (row : Nat) (prompt : List Nat) : Request Kv where
  conversation := row
  promptLen := prompt.length
  inputIds := prompt
  targetCache := net.chain prompt
  tree := draft row prompt (net.next prompt)
  iterations := 0
  generatedTokens := 0
  acceptLengthsRaw := []
  finished := false

/-- The tokens of a prompt's row with their positions. -/
def promptQueries (padTokenId width : Nat) (prompt : List Nat) : List (Nat × Nat) :=
  (promptIds padTokenId width prompt).zip (promptPositions (promptAttention width prompt))

/-- What a token of a prompt sees in the prefill. -/
def promptMask (width : Nat) (prompt : List Nat) : Nat → Nat → Bool :=
  decoderMask 0 (promptAttention width prompt) none

/-- The target's choices in a prompt's row. -/
def promptChoices (padTokenId width : Nat) (prompt : List Nat) : List Nat :=
  (net.stage (promptMask width prompt) 0 [] (promptQueries padTokenId width prompt)).map net.choice

/-- The columns of a prompt's row. -/
def promptColumns (padTokenId width : Nat) (prompt : List Nat) : List Kv :=
  net.columnsAfter (promptMask width prompt) [] (promptQueries padTokenId width prompt)

variable {draft net} {width : Nat} {prompt : List Nat}

theorem promptAttention_inside {column : Nat} (inside : column < prompt.length) :
    (promptAttention width prompt)[column]? = some true := by
  rw [promptAttention, List.getElem?_append_left (by simpa using inside),
    List.getElem?_replicate_of_lt inside]

theorem promptQueries_token {place : Nat} (inside : place < prompt.length) :
    (promptQueries padTokenId width prompt)[place]? = some (prompt.getD place 0, place) := by
  have counted : ((promptAttention width prompt).take (place + 1)).count true = place + 1 := by
    rw [promptAttention, List.take_append_of_le_length (by rw [List.length_replicate]; exact inside),
      List.take_replicate, Nat.min_eq_left inside, List.count_replicate_self]
  rw [promptQueries, List.getElem?_zip_eq_some]
  refine ⟨?_, ?_⟩
  · rw [promptIds, List.getElem?_append_left inside, List.getD_eq_getElem?_getD, List.getElem?_eq_getElem inside]
    rfl
  · rw [promptPositions, List.getElem?_mapIdx, promptAttention_inside inside, Option.map_some, if_pos rfl,
      counted, Nat.add_sub_cancel]

theorem promptQueries_length (short : prompt.length ≤ width) :
    (promptQueries padTokenId width prompt).length = width := by
  simp only [promptQueries, promptIds, promptPositions, promptAttention, List.length_zip, List.length_append,
    List.length_replicate, List.length_mapIdx]
  omega

theorem prompt_continues : net.Continues (promptMask width prompt) [] (promptQueries padTokenId width prompt) 0
    [] (List.range prompt.length) (prompt.getD · 0) where
  width := rfl
  long := le_rfl
  start := rfl
  ascending := List.pairwise_lt_range
  listed := by
    intro count place read
    obtain ⟨inside, rfl⟩ := List.getElem?_eq_some_iff.mp read
    rw [List.length_range] at inside
    rw [List.getElem_range, promptQueries_token inside, List.length_nil, Nat.zero_add]
  shown := by
    intro count place read column bound
    obtain ⟨inside, rfl⟩ := List.getElem?_eq_some_iff.mp read
    rw [List.length_range] at inside
    rw [List.getElem_range, Nat.zero_add] at bound
    rw [List.getElem_range, List.take_range, Nat.min_eq_left inside, List.mem_range, promptMask, decoderMask,
      List.getD_eq_getElem?_getD, promptAttention_inside (bound.trans_lt inside)]
    simp

theorem map_getD_range (prompt : List Nat) : (List.range prompt.length).map (prompt.getD · 0) = prompt := by
  refine List.ext_getElem (by simp) fun place _ inside => ?_
  simp [List.getD_eq_getElem?_getD, List.getElem?_eq_getElem inside]

section batch

variable {prompts : List (List Nat)} (short : ∀ prompt ∈ prompts, prompt.length ≤ width)

include short

theorem forward_prompts : forward net (prompts.map (promptAttention width)) none
      (prompts.map (promptIds padTokenId width)) ((prompts.map (promptAttention width)).map promptPositions)
      (allocateTargetKv zero prompts.length width 0) =
    .ok (prompts.map (promptChoices net padTokenId width),
      ⟨prompts.map (promptColumns net padTokenId width),
        0 + maximum ((prompts.map (promptIds padTokenId width)).map List.length)⟩) := by
  rw [forward, @mapM_numbered _ _ _ prompts (allocateTargetKv zero prompts.length width 0).data _
    (fun prompt => (promptChoices net padTokenId width prompt, promptColumns net padTokenId width prompt))
    (List.length_replicate ..)]
  · change Except.ok _ = _
    simp only [List.map_map, Function.comp_def]
    rfl
  · intro row prompt data listed allocated
    have member := List.mem_of_getElem? listed
    obtain rfl : data = List.replicate width zero := by
      rw [allocateTargetKv] at allocated
      exact List.eq_of_mem_replicate (List.mem_of_getElem? allocated)
    have count := @promptQueries_length padTokenId width prompt (short prompt member)
    simp only [forwardEntry, List.getD_eq_getElem?_getD, List.getElem?_map, listed, Option.map_some,
      Option.getD_some, Option.map_none, forwardRow]
    change (if 0 + (net.stage (promptMask width prompt) 0 [] (promptQueries padTokenId width prompt)).length ≤ _
      then Except.ok (promptChoices net padTokenId width prompt, promptColumns net padTokenId width prompt ++
        List.drop (0 + (net.stage (promptMask width prompt) 0 []
          (promptQueries padTokenId width prompt)).length) _) else _) = _
    rw [Network.stage_length, count, Nat.zero_add, if_pos (List.length_replicate ..).ge,
      List.drop_eq_nil_of_le (List.length_replicate ..).le, List.append_nil]

omit short in
/-- The choice behind a prompt's last token is the first token. -/
theorem promptChoices_next (nonempty : prompt ≠ []) :
    (promptChoices net padTokenId width prompt).getD (prompt.length - 1) 0 = net.next prompt := by
  have positive := List.length_pos_iff.mpr nonempty
  have read : (List.range prompt.length)[prompt.length - 1]? = some (prompt.length - 1) :=
    List.getElem?_range (Nat.sub_lt positive Nat.one_pos)
  rw [List.getD_eq_getElem?_getD, promptChoices, prompt_continues.answer read, Nat.sub_add_cancel positive,
    List.take_of_length_le (List.length_range ..).le, map_getD_range]
  rfl

omit short in
theorem promptColumns_chain (fits : prompt.length ≤ width) :
    (promptColumns net padTokenId width prompt).take prompt.length = net.chain prompt := by
  have copied := (@prompt_continues _ net padTokenId width prompt).copied
  simp only [List.length_nil, List.take_zero, List.nil_append, Nat.zero_add, List.map_id'] at copied
  rw [← Network.gather_range (by
    rw [promptColumns, Network.columnsAfter_length, promptQueries_length fits]
    exact fits.trans (Nat.le_add_left ..)), promptColumns, copied, map_getD_range]

end batch

/-- The prefill leaves every request with the entries of its prompt and a tree for its first token. -/
theorem prefill_eq {prompts : List (List Nat)} (nonempty : ∀ prompt ∈ prompts, prompt ≠ []) :
    prefill draft net zero padTokenId prompts = .ok (prompts.mapIdx (initialState draft net)) := by
  obtain ⟨width, widest⟩ : ∃ width, maximum (prompts.map List.length) = width := ⟨_, rfl⟩
  have short : ∀ prompt ∈ prompts, prompt.length ≤ width := fun prompt member =>
    (le_maximum _ _ (List.mem_map_of_mem member)).trans_eq widest
  rw [prefill, widest, forward_prompts short]
  refine congrArg Except.ok (List.mapIdx_eq_mapIdx_iff.mpr fun row inside => ?_)
  have listed : prompts[row]? = some prompts[row] := List.getElem?_eq_getElem inside
  have member := List.mem_of_getElem? listed
  simp only [List.getD_eq_getElem?_getD, List.getElem?_map, listed, Option.map_some, Option.getD_some,
    promptColumns_chain (short _ member)]
  have first := @promptChoices_next _ net padTokenId width _ (nonempty _ member)
  rw [List.getD_eq_getElem?_getD] at first
  rw [first]
  rfl

end prefill

section runs

variable (limits draft net)

/-- A round of the batch, as far as one request goes. -/
def advanceOwn (state : Request Kv) : Request Kv :=
  if state.finished then state else ownRound limits draft net state

variable {limits draft net} {row : Nat} {prompt : List Nat} {state : Request Kv}

theorem initialState_serves (drafts : ∀ row input next, Verifiable (draft row input next) next)
    (positive : 0 < limits.maxNewTokens) : Serves limits net row prompt (initialState draft net row prompt) := by
  have output : (initialState draft net row prompt).outputIds = [] := List.drop_length ..
  refine ⟨rfl, rfl, ?_, ?_, ?_, rfl, rfl, fun _ _ none => absurd none (Nat.not_lt_zero _),
    fun _ => ⟨⟨drafts _ _ _, rfl⟩, ?_, positive, fun none => absurd none (Nat.not_lt_zero _)⟩, nofun⟩
  all_goals rw [output]
  · exact (List.append_nil _).symm
  · rfl
  · trivial
  · nofun

theorem advanceOwn_serves (drafts : ∀ row input next, Verifiable (draft row input next) next)
    (serves : Serves limits net row prompt state) :
    Serves limits net row prompt (advanceOwn limits draft net state) := by
  cases ended : state.finished with
  | true => rwa [advanceOwn, if_pos ended]
  | false =>
    rw [advanceOwn, if_neg (by simp [ended])]
    exact ownRound_serves drafts serves ended

/-- After any number of rounds; a request that still runs has taken part in all of them. -/
theorem run_serves (drafts : ∀ row input next, Verifiable (draft row input next) next)
    (positive : 0 < limits.maxNewTokens) (rounds : Nat) :
    Serves limits net row prompt ((advanceOwn limits draft net)^[rounds] (initialState draft net row prompt)) ∧
      (((advanceOwn limits draft net)^[rounds] (initialState draft net row prompt)).finished = false →
        ((advanceOwn limits draft net)^[rounds] (initialState draft net row prompt)).iterations = rounds) := by
  induction rounds with
  | zero => exact ⟨initialState_serves drafts positive, fun _ => rfl⟩
  | succ rounds ih =>
    obtain ⟨serves, counted⟩ := ih
    rw [Function.iterate_succ_apply']
    refine ⟨advanceOwn_serves drafts serves, fun runs => ?_⟩
    cases ended : ((advanceOwn limits draft net)^[rounds] (initialState draft net row prompt)).finished with
    | true => rw [advanceOwn, if_pos ended, ended] at runs; cases runs
    | false =>
      rw [advanceOwn, if_neg (by simp [ended])]
      exact congrArg (· + 1) (counted ended)

theorem Serves.iterations_le (serves : Serves limits net row prompt state) :
    state.iterations ≤ state.generatedTokens := by
  rw [← serves.counted, ← serves.rounds]
  have emits : ∀ lengths : List Nat, lengths.length ≤ (lengths.map (· + 1)).sum := by
    intro lengths
    induction lengths with
    | nil => exact le_rfl
    | cons length rest ih =>
      rw [List.length_cons, List.map_cons, List.sum_cons]
      omega
  exact emits _

theorem decodeLoop_own (drafts : ∀ row input next, Verifiable (draft row input next) next) (rounds : Nat)
    {states : List (Request Kv)} (serves : ∀ state ∈ states, ∃ row prompt, Serves limits net row prompt state) :
    decodeLoop limits draft net zero padTokenId rounds states =
      .ok (states.map (advanceOwn limits draft net)^[rounds]) := by
  induction rounds generalizing states with
  | zero => exact congrArg Except.ok (List.map_id states).symm
  | succ rounds ih =>
    have advanced : ∀ state ∈ states.map (advanceOwn limits draft net),
        ∃ row prompt, Serves limits net row prompt state := by
      intro state member
      obtain ⟨earlier, listed, rfl⟩ := List.mem_map.mp member
      obtain ⟨row, prompt, served⟩ := serves earlier listed
      exact ⟨row, prompt, advanceOwn_serves drafts served⟩
    rw [decodeLoop]
    split
    next ended =>
      have still : ∀ state ∈ states, (advanceOwn limits draft net)^[rounds + 1] state = state := by
        intro state member
        have fixed : advanceOwn limits draft net state = state :=
          if_pos (List.all_eq_true.mp ended state member)
        exact Function.iterate_fixed fixed _
      exact congrArg Except.ok ((List.map_congr_left still).trans (List.map_id states)).symm
    next =>
      have round := @decodeRound_own _ limits draft net zero padTokenId states (fun state member runs => by
        obtain ⟨row, prompt, served⟩ := serves state member
        exact (served.running runs).1)
      have rest := ih advanced
      rw [round]
      refine rest.trans ?_
      rw [List.map_map]
      rfl

theorem generateConversations_own (drafts : ∀ row input next, Verifiable (draft row input next) next)
    (positive : 0 < limits.maxNewTokens) {prompts : List (List Nat)}
    (nonempty : ∀ prompt ∈ prompts, prompt ≠ []) (rounds : Nat) :
    generateConversations limits draft net zero padTokenId rounds prompts = .ok (prompts.mapIdx (fun row prompt =>
      (advanceOwn limits draft net)^[rounds] (initialState draft net row prompt))) := by
  rw [generateConversations, prefill_eq nonempty]
  refine (decodeLoop_own drafts rounds fun state member => ?_).trans ?_
  · obtain ⟨row, inside, rfl⟩ := List.mem_mapIdx.mp member
    exact ⟨row, _, initialState_serves drafts positive⟩
  · refine congrArg Except.ok (List.ext_getElem? fun row => ?_)
    rw [List.getElem?_map, List.getElem?_mapIdx, List.getElem?_mapIdx, Option.map_map]
    rfl

theorem pair_verifiable (current guess : Nat) : Verifiable (Tree.pair current guess) current := by
  have rooted : ∀ node path, (Tree.pair current guess).rootPath node = some path →
      node = 0 ∧ path = [0] ∨ node = 1 ∧ path = [0, 1] := by
    intro node path found
    match node with
    | 0 => exact .inl ⟨rfl, (Option.some.inj found).symm⟩
    | 1 => exact .inr ⟨rfl, (Option.some.inj found).symm⟩
    | node + 2 =>
      obtain ⟨nodes, onRow, -⟩ := Option.map_eq_some_iff.mp found
      have member := List.find?_some onRow
      have row := List.mem_of_find?_eq_some onRow
      rw [List.mem_singleton.mp row] at member
      simp at member
      omega
  refine ⟨Tree.pair_wellFormed current guess, le_rfl, ?_, ?_, ?_⟩
  all_goals
    intro node path found
    obtain ⟨rfl, rfl⟩ | ⟨rfl, rfl⟩ := rooted node path found
  · exact List.pairwise_singleton ..
  · decide
  · rfl
  · rfl
  all_goals
    intro other inside
    match other, inside with
    | 0, _ => simp [Tree.pair]
    | 1, _ => simp [Tree.pair]

/-- A target that counts what it sees. -/
def counting : Network Nat Nat where
  entry := fun query => query.token
  choice := fun query => (query.token + query.seen.length) % 5

/-- The batched loop is lossless: whatever the trees, every request holds the entries of its own
input as long as it runs, follows plain greedy decoding, finishes within as many rounds as it may
emit tokens, and ends with the plain decoding of its prompt or with the part of it up to the round
that passed the longest logical length. -/
theorem eagle3_lossless (drafts : ∀ row input next, Verifiable (draft row input next) next)
    (positive : 0 < limits.maxNewTokens) (prompts : List (List Nat))
    (nonempty : ∀ prompt ∈ prompts, prompt ≠ []) (rounds : Nat) :
    ∃ states, generateConversations limits draft net zero padTokenId rounds prompts = .ok states ∧
      states.length = prompts.length ∧
      ∀ row prompt state, prompts[row]? = some prompt → states[row]? = some state →
        Serves limits net row prompt state ∧ (limits.maxNewTokens ≤ rounds → state.finished = true) := by
  refine ⟨_, generateConversations_own drafts positive nonempty rounds, List.length_mapIdx, ?_⟩
  intro row prompt state listed reached
  rw [List.getElem?_mapIdx, listed] at reached
  obtain rfl := Option.some.inj reached
  obtain ⟨serves, counted⟩ := @run_serves _ limits draft net row prompt drafts positive rounds
  refine ⟨serves, fun enough => ?_⟩
  by_contra runs
  have goesOn := Bool.eq_false_iff.mpr runs
  have short := (serves.running goesOn).2.2.1
  have emitted := serves.iterations_le
  rw [counted goesOn] at emitted
  omega

/-- Two prompts of different lengths, a guess that is sometimes right, and a stop token. -/
theorem eagle3_lossless_small : ∃ states,
    generateConversations ⟨4, (· == 2), 100⟩ (fun _ _ next => Tree.pair next 3) counting 0 0 4 [[1], [2, 0]] =
        .ok states ∧
      ∀ row prompt state, [[1], [2, 0]][row]? = some prompt → states[row]? = some state →
        Serves ⟨4, (· == 2), 100⟩ counting row prompt state ∧ state.finished = true := by
  obtain ⟨states, run, -, served⟩ := @eagle3_lossless Nat ⟨4, (· == 2), 100⟩
    (fun _ _ next => Tree.pair next 3) counting 0 0 (fun _ _ next => pair_verifiable next 3) (by decide)
    [[1], [2, 0]] (by decide) 4
  exact ⟨states, run, fun row prompt state listed reached =>
    (served row prompt state listed reached).imp id fun finished => finished le_rfl⟩

example : (generateConversations ⟨4, (· == 2), 100⟩ (fun _ _ next => Tree.pair next 3) counting 0 0 4
    [[1], [2, 0]]).map (List.map Request.outputIds) = .ok [[1, 2], [1, 3, 1, 0]] := by rfl

end runs

end SpecBlock.Eagle3
