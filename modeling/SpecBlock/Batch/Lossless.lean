import SpecBlock.Batch.Generation

/-!
# Losslessness of the batched decode loop

Between rounds every request is either running, with an output that follows the
target and ends with its current token, or done, with exactly the plain decoding
of its own prompt. One round preserves this and lengthens every running output,
so the token limit bounds the number of rounds.
-/

namespace SpecBlock.Batch

open Autoregressive Rows

variable {H : Type}

/-- The loop invariant: active requests run, all others are done. -/
structure Between (settings : Settings) (next : List Nat → Nat) (prompts : List (List Nat))
    (round : Nat) (states : List RequestState) (active : List Nat) : Prop where
  lengths : states.length = prompts.length
  distinct : active.Nodup
  running : ∀ request ∈ active, ∃ prompt state, prompts[request]? = some prompt ∧
    states[request]? = some state ∧ state.Running settings next prompt round
  done : ∀ request prompt state, request ∉ active → prompts[request]? = some prompt →
    states[request]? = some state → state.Done settings next prompt

variable {settings : Settings} {next : List Nat → Nat} {prompts : List (List Nat)}
  {states : List RequestState} {active : List Nat} {round : Nat}

theorem Between.inside (between : Between settings next prompts round states active) :
    ∀ request ∈ active, request < states.length := by
  intro request member
  obtain ⟨-, state, -, read, -⟩ := between.running request member
  exact (List.getElem?_eq_some_iff.mp read).1

/-- The state at an active row is the running state of the request listed there. -/
theorem Between.row (between : Between settings next prompts round states active)
    (row request : Nat) (listed : active[row]? = some request) :
    ∃ prompt state, prompts[request]? = some prompt ∧ states[request]? = some state ∧
      (gather active states)[row]? = some state ∧ state.Running settings next prompt round := by
  obtain ⟨prompt, state, atPrompt, read, running⟩ :=
    between.running request (List.mem_of_getElem? listed)
  refine ⟨prompt, state, atPrompt, read, ?_, running⟩
  rw [gather_getElem? active states between.inside, listed]
  exact read

/-- Every gathered state has a tree drafted from its current token. -/
theorem Between.drafted (between : Between settings next prompts round states active)
    (state : RequestState) (member : state ∈ gather active states) :
    ∃ current tree, state.tree = some tree ∧ tree.WellFormed current := by
  obtain ⟨row, read⟩ := List.getElem?_of_mem member
  have bound : row < active.length := by
    rw [← gather_length active states between.inside]
    exact (List.getElem?_eq_some_iff.mp read).1
  obtain ⟨_, running, -, -, atRow, invariant⟩ :=
    between.row row active[row] (List.getElem?_eq_getElem bound)
  obtain rfl : state = running := Option.some.inj (read.symm.trans atRow)
  obtain ⟨current, tree, -, -, drafted, wellFormed⟩ := invariant.drafted
  exact ⟨current, tree, drafted, wellFormed⟩

section advance

variable (draft : Draft) (accepted : List (Accepted H))

/-- The states after a round's commits and drafts. -/
def advanced (settings : Settings) (round : Nat) (states : List RequestState)
    (active : List Nat) : List RequestState :=
  scatter active ((active.zip accepted).map (fun row =>
    advance settings draft (round + 1) row.1 row.2)) states

variable (between : Between settings next prompts round states active) (trees : draft.WellFormed)
  (lengths : accepted.length = active.length)
  (follows : ∀ (row : Nat) (state : RequestState) (decision : Accepted H),
    (gather active states)[row]? = some state → accepted[row]? = some decision →
    Follows next (state.promptIds ++ state.outputTokens) decision.proposed)

include between trees lengths follows

theorem advanced_row (row request : Nat) (listed : active[row]? = some request) :
    ∃ prompt state', prompts[request]? = some prompt ∧
      (advanced draft accepted settings round states active)[request]? = some state' ∧
      (state'.finished = true → state'.Done settings next prompt) ∧
      (state'.finished = false → state'.Running settings next prompt (round + 1)) := by
  obtain ⟨prompt, state, atPrompt, read, atRow, running⟩ := between.row row request listed
  have bound : row < accepted.length := by
    rw [lengths]
    exact (List.getElem?_eq_some_iff.mp listed).1
  have atDecision := List.getElem?_eq_getElem bound
  have proposal := follows row state accepted[row] atRow atDecision
  rw [running.owner] at proposal
  have paired : (active.zip accepted)[row]? = some (request, accepted[row]) :=
    List.getElem?_zip_eq_some.mpr ⟨listed, atDecision⟩
  have written := scatter_getElem? active ((active.zip accepted).map (fun row =>
    advance settings draft (round + 1) row.1 row.2)) states between.distinct row request
    (advance settings draft (round + 1) request accepted[row]) listed (by
      rw [List.getElem?_map, paired]
      rfl)
  rw [read] at written
  exact ⟨prompt, _, atPrompt, written, advance_spec accepted[row] trees running proposal⟩

/-- Decisions that follow the target preserve the invariant: each active row
receives its own, and no other row changes. -/
theorem Between.advance :
    Between settings next prompts (round + 1) (advanced draft accepted settings round states active)
      (survivors (advanced draft accepted settings round states active) active) := by
  have rows := advanced_row draft accepted between trees lengths follows
  refine ⟨by rw [advanced, scatter_length, between.lengths], between.distinct.filter _, ?_, ?_⟩
  · intro request member
    obtain ⟨kept, alive⟩ := List.mem_filter.mp member
    obtain ⟨row, listed⟩ := List.getElem?_of_mem kept
    obtain ⟨prompt, state', atPrompt, written, -, running⟩ := rows row request listed
    simp only [written, Option.any_some, Bool.not_eq_true'] at alive
    exact ⟨prompt, state', atPrompt, written, running alive⟩
  · intro request prompt state' absent atPrompt written
    by_cases kept : request ∈ active
    · obtain ⟨row, listed⟩ := List.getElem?_of_mem kept
      obtain ⟨own, changed, atOwn, written', done, -⟩ := rows row request listed
      obtain rfl : own = prompt := Option.some.inj (atOwn.symm.trans atPrompt)
      obtain rfl : changed = state' := Option.some.inj (written'.symm.trans written)
      apply done
      by_contra unfinished
      exact absent (List.mem_filter.mpr ⟨kept, by simp [written, unfinished]⟩)
    · rw [advanced, scatter_frame active _ states request kept] at written
      exact between.done request prompt state' kept atPrompt written

end advance

/-- One round succeeds and preserves the invariant: each decision is a greedy
root path of its own tree, so what it proposes follows the target. -/
theorem decodeRound_between (target : Target H) (draft : Draft)
    (between : Between settings next prompts round states active)
    (strict : settings.acceptTopk = 1) (vocabulary : 0 < settings.vocabSize)
    (faithful : target.Faithful next) (trees : draft.WellFormed) :
    ∃ states' active', decodeRound settings target draft round states active =
        .ok (states', active') ∧
      Between settings next prompts (round + 1) states' active' := by
  have total : ∀ state ∈ gather active states, (staged state).isSome := by
    intro state member
    obtain ⟨current, tree, drafted, -⟩ := between.drafted state member
    simp [staged, drafted]
  obtain ⟨accepted, decided, lengths, related⟩ := verifyGreedy_spec settings.vocabSize
    settings.padTokenId ((gather active states).filterMap staged)
    (target.verify round (gather active states)) vocabulary (by
      intro request member
      obtain ⟨state, gathered, shape⟩ := List.mem_filterMap.mp member
      obtain ⟨current, tree, drafted, wellFormed⟩ := between.drafted state gathered
      obtain rfl : (tree, state.targetPrefixLen) = request := by simpa [staged, drafted] using shape
      exact ⟨current, wellFormed⟩)
  rw [filterMap_length _ _ total, gather_length active states between.inside] at lengths
  refine ⟨advanced draft accepted settings round states active, _, ?_,
    between.advance draft accepted trees lengths ?_⟩
  · simp only [decodeRound, strict, decided, bind, Except.bind, pure, Except.pure]
    rfl
  · intro row state decision atRow atDecision
    have bound : row < active.length := by
      rw [← gather_length active states between.inside]
      exact (List.getElem?_eq_some_iff.mp atRow).1
    obtain ⟨prompt, own, -, -, atOwn, running⟩ :=
      between.row row active[row] (List.getElem?_eq_getElem bound)
    obtain rfl : own = state := Option.some.inj (atOwn.symm.trans atRow)
    obtain ⟨current, tree, -, -, drafted, wellFormed⟩ := running.drafted
    obtain ⟨path, onTree, greedy⟩ := related row (tree, own.targetPrefixLen) decision (by
      rw [filterMap_getElem? _ _ total, atRow]
      simp [staged, drafted]) atDecision
    rw [running.owner]
    exact proposed_follows running drafted onTree greedy (fun node nodePath spelled =>
      faithful.verify round _ row own tree node nodePath atRow drafted spelled)

/-- With no active request left, every output is the plain decoding. -/
theorem Between.outputs (between : Between settings next prompts round states []) :
    states.map RequestState.outputTokens = prompts.map (fun prompt =>
      decode next settings.isEos prompt settings.maxNewTokens) := by
  apply List.ext_getElem (by simp [between.lengths])
  intro request inStates inPrompts
  rw [List.length_map] at inStates inPrompts
  simp only [List.getElem_map]
  exact (between.done request prompts[request] states[request] List.not_mem_nil
    (List.getElem?_eq_getElem inPrompts) (List.getElem?_eq_getElem inStates)).output

/-- From the invariant the loop ends within the rounds the token limit leaves,
with every output the plain decoding. -/
theorem decodeLoop_done (target : Target H) (draft : Draft) (fuel : Nat)
    (between : Between settings next prompts round states active)
    (strict : settings.acceptTopk = 1) (vocabulary : 0 < settings.vocabSize)
    (faithful : target.Faithful next) (trees : draft.WellFormed)
    (enough : settings.maxNewTokens ≤ round + fuel) :
    ∃ final, decodeLoop settings target draft fuel round states active = .ok final ∧
      final.map RequestState.outputTokens = prompts.map (fun prompt =>
        decode next settings.isEos prompt settings.maxNewTokens) := by
  induction fuel generalizing round states active with
  | zero =>
    cases active with
    | nil => exact ⟨states, by rw [decodeLoop], between.outputs⟩
    | cons request rest =>
      obtain ⟨prompt, state, -, -, running⟩ := between.running request List.mem_cons_self
      have short := running.short
      have progress := running.progress
      omega
  | succ fuel ih =>
    cases active with
    | nil => exact ⟨states, by rw [decodeLoop], between.outputs⟩
    | cons request rest =>
      obtain ⟨states', active', stepped, between'⟩ :=
        decodeRound_between target draft between strict vocabulary faithful trees
      obtain ⟨final, decoded, outputs⟩ := ih between' (by omega)
      refine ⟨final, ?_, outputs⟩
      simp only [decodeLoop, stepped, bind, Except.bind]
      exact decoded

section prefill

variable (target : Target H) (draft : Draft) (prompt : List Nat)

theorem prefilled_done (firstToken : Nat) (limit : 1 ≤ settings.maxNewTokens)
    (faithful : firstToken = next prompt)
    (finished : (prefilled settings prompt firstToken).finished = true) :
    (prefilled settings prompt firstToken).Done settings next prompt := by
  refine ⟨finished, ?_⟩
  have complete : ([] : List Nat).length + 1 = settings.maxNewTokens ∨
      settings.isEos firstToken = true := by
    simp only [prefilled, Bool.or_eq_true, beq_iff_eq] at finished
    rcases finished with stopped | single
    · exact .inr stopped
    · exact .inl (by simp [single])
  exact (decode_complete next settings.isEos prompt [] firstToken settings.maxNewTokens
    ⟨faithful, trivial⟩ (by simp) limit complete).symm

/-- A request not finished by its first token runs once its tree is drafted. -/
theorem prefilled_running (request firstToken : Nat) (limit : 1 ≤ settings.maxNewTokens)
    (faithful : firstToken = next prompt) (trees : draft.WellFormed)
    (unfinished : (prefilled settings prompt firstToken).finished = false) :
    ({ prefilled settings prompt firstToken with
        tree := some (draft 0 request (prefilled settings prompt firstToken)) } :
      RequestState).Running settings next prompt 0 := by
  have open' : settings.isEos firstToken = false ∧ settings.maxNewTokens ≠ 1 := by
    simpa [prefilled] using unfinished
  refine ⟨rfl, unfinished, ⟨faithful, trivial⟩, ?_, ?_, ?_, ?_⟩
  · simpa [prefilled] using open'.1
  · simp only [prefilled, List.length_singleton]
    omega
  · simp [prefilled]
  · exact ⟨firstToken, _, rfl, rfl, rfl, trees 0 request _ firstToken rfl⟩

end prefill

theorem prefill_between (target : Target H) (draft : Draft) (limit : 1 ≤ settings.maxNewTokens)
    (faithful : target.Faithful next) (trees : draft.WellFormed) :
    Between settings next prompts 0 (prefill settings target draft prompts).1
      (prefill settings target draft prompts).2 := by
  obtain ⟨lengths, distinct, entered, others⟩ := prefill_rows settings target draft prompts
  refine ⟨lengths, distinct, ?_, ?_⟩
  · intro request member
    obtain ⟨prompt, atPrompt, unfinished, atState⟩ := entered request member
    exact ⟨prompt, _, atPrompt, atState, prefilled_running draft prompt request _ limit
      (faithful.prefill prompts request _ atPrompt) trees unfinished⟩
  · intro request prompt state absent atPrompt atState
    obtain ⟨finished, own⟩ := others request prompt absent atPrompt
    obtain rfl := Option.some.inj (own.symm.trans atState)
    exact prefilled_done prompt _ limit (faithful.prefill prompts request prompt atPrompt) finished

/-- Greedy speculative decoding is lossless: whatever is drafted and whoever
shares the batch, each request's output is the plain greedy decoding of its own
prompt. As many rounds as the token limit suffice. -/
theorem generateConversations_lossless (settings : Settings) (next : List Nat → Nat)
    (target : Target H) (draft : Draft) (prompts : List (List Nat)) (fuel : Nat)
    (limit : 1 ≤ settings.maxNewTokens) (strict : settings.acceptTopk = 1)
    (vocabulary : 0 < settings.vocabSize) (faithful : target.Faithful next)
    (trees : draft.WellFormed) (enough : settings.maxNewTokens ≤ fuel) :
    generateConversations settings target draft fuel prompts =
      .ok (prompts.map (fun prompt =>
        decode next settings.isEos prompt settings.maxNewTokens)) := by
  have between : Between settings next prompts 0 (prefill settings target draft prompts).1
      (prefill settings target draft prompts).2 :=
    prefill_between target draft limit faithful trees
  obtain ⟨final, decoded, outputs⟩ := decodeLoop_done target draft fuel between strict vocabulary
    faithful trees (by omega : settings.maxNewTokens ≤ 0 + fuel)
  have positive : settings.maxNewTokens ≠ 0 := by omega
  simp only [generateConversations, if_neg positive, decoded, bind, Except.bind, pure, Except.pure,
    outputs]

/-- A target that computes every node's choice from the node's own root path. -/
def Target.honest (next : List Nat → Nat) : Target Unit where
  prefill prompts request := next (prompts.getD request [])
  verify _ active :=
    { argmax := fun row node =>
        match active[row]?.bind (fun state => state.tree.bind (fun tree =>
          (tree.rootPath node).map (fun path =>
            state.promptIds ++ state.outputTokens.dropLast ++ tree.tokensAt path))) with
        | some context => next context
        | none => 0
      topk := fun _ _ => []
      hidden := fun _ _ _ => () }

theorem Target.honest_faithful (next : List Nat → Nat) : (Target.honest next).Faithful next := by
  constructor
  · intro prompts request prompt atPrompt
    simp [honest, List.getD_eq_getElem?_getD, atPrompt]
  · intro round active row state tree node path atRow drafted spelled
    simp [honest, atRow, drafted, spelled]

/-- A drafter that always guesses the same token after the current one. -/
def guess (token : Nat) : Draft := fun _ _ state => Tree.pair (state.currentToken.getD 0) token

theorem guess_wellFormed (token : Nat) : (guess token).WellFormed := by
  intro round request state current atCurrent
  rw [guess, atCurrent]
  exact Tree.pair_wellFormed current token

/-- Two prompts of different lengths, one of which stops early. -/
theorem generateConversations_lossless_pair :
    generateConversations ⟨4, [9], 0, 16, 1⟩ (Target.honest (fun context => context.sum % 11))
        (guess 4) 4 [[2, 7], [3, 1]] = .ok [[9], [4, 8, 5, 10]] :=
  (generateConversations_lossless ⟨4, [9], 0, 16, 1⟩ (fun context => context.sum % 11)
    (Target.honest _) (guess 4) [[2, 7], [3, 1]] 4 (by decide) rfl (by decide)
    (Target.honest_faithful _) (guess_wellFormed 4) (by decide)).trans (by decide)

end SpecBlock.Batch
