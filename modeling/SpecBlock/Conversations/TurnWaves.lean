import SpecBlock.Conversations.Messages
import SpecBlock.Foundation.Rows
import Mathlib.Order.MinMax

/-!
# Turn waves

The batched benchmark algorithms run many conversations at once. Each wave asks the engine for the
next turn of every sample that still has one, and hands the responses back by position. Samples
with fewer turns drop out of later waves. The serial path runs one sample after the other, one turn
at a time.

The engine is a function on batches; the two paths are compared for engines that answer each
conversation of a batch as they answer it alone. Clock readings and the ratios computed from them
are left out. A result is compared in its output and in the counts of its metrics.

A wave acts on each context alone, so the contexts after some waves are the iterates of one step
per sample.
-/

namespace SpecBlock.Conversations

/-- Counts of a response or a result; a metric that a row does not carry is `none`. -/
structure Metrics where
  totalTokens : Option Nat
  outputTokenIds : Option (List Nat)
  iterations : Option Nat
  numTurns : Option Nat
  acceptLengthsRaw : Option (List Nat)
deriving DecidableEq, Repr

/-- What the engine returns for one conversation. -/
structure Response where
  output : String
  metrics : Metrics
deriving DecidableEq, Repr

/-- A text, or one text per turn. -/
inductive Output where
  | text (output : String)
  | turns (outputs : List String)
deriving DecidableEq, Repr

/-- What is returned for one sample. -/
structure SampleResult where
  output : Output
  metrics : Metrics
deriving DecidableEq, Repr

/-- A benchmark sample. Either key may be missing. -/
structure Sample where
  turns : Option (List String)
  conversation : Option Conversation
deriving DecidableEq, Repr

/-- `sample.get("turns")` where it is truthy. -/
def Sample.givenTurns (sample : Sample) : Option (List String) :=
  match sample.turns with
  | some (first :: rest) => some (first :: rest)
  | _ => none

/-- The engine: one call for a batch of conversations. -/
abbrev Engine := List Conversation → List Response

/-- The sum of one metric over rows, zero where a row does not carry it. -/
def sumOf (metric : Metrics → Option Nat) (rows : List Metrics) : Nat :=
  (rows.map (fun row => (metric row).getD 0)).sum

/-- The values of one metric over rows, in order. -/
def joined (metric : Metrics → Option (List Nat)) (rows : List Metrics) : List Nat :=
  rows.flatMap (fun row => (metric row).getD [])

section serial

variable (generateConversations : Engine) (systemPrompt : String)

/-- `_generate_once`: a batch of one. -/
def generateOnce (conversation : Conversation) : Option Response :=
  (generateConversations [conversation]).head?

/-- What `_generate_multi_turn` accumulates. -/
structure MultiTurn where
  messages : Conversation
  allOutputs : List String
  totalTokens : Nat
  totalIterations : Nat
  allAcceptLengths : List Nat

/-- One turn of `_generate_multi_turn`. -/
def MultiTurn.turn (state : MultiTurn) (userContent : String) : Option MultiTurn := do
  let messages := state.messages ++ [⟨.user, userContent⟩]
  let result ← generateOnce generateConversations messages
  return {
    messages := messages ++ [⟨.assistant, result.output⟩]
    allOutputs := state.allOutputs ++ [result.output]
    totalTokens := state.totalTokens + result.metrics.totalTokens.getD 0
    totalIterations := state.totalIterations + result.metrics.iterations.getD 0
    allAcceptLengths := state.allAcceptLengths ++ result.metrics.acceptLengthsRaw.getD [] }

/-- `_generate_multi_turn`. The turns are generated one after the other, each behind the
conversation so far; an answer that is missing fails the sample. -/
def generateMultiTurn (turns : List String) : Option SampleResult := do
  let start : MultiTurn := ⟨prepareConversation systemPrompt [], [], 0, 0, []⟩
  let final ← turns.foldlM (MultiTurn.turn generateConversations) start
  return {
    output := .turns final.allOutputs
    metrics := {
      totalTokens := some final.totalTokens
      outputTokenIds := none
      iterations := some final.totalIterations
      numTurns := some turns.length
      acceptLengthsRaw := some final.allAcceptLengths } }

/-- `_generate_sample`. A sample without turns is one conversation. -/
def generateSample (sample : Sample) : Option SampleResult :=
  match sample.givenTurns with
  | some turns => generateMultiTurn generateConversations systemPrompt turns
  | none => do
    let response ← generateOnce generateConversations
      (prepareConversation systemPrompt (sample.conversation.getD []))
    return ⟨.text response.output, response.metrics⟩

end serial

/-- The state of one sample over the waves. A single-turn context has no turns, and its outputs
and rows are never read. -/
structure Context where
  turns : Option (List String)
  turnIdx : Nat
  messages : Conversation
  outputs : List String
  metricRows : List Metrics
  result : Option SampleResult
deriving DecidableEq, Repr

/-- The closing metrics of a multi-turn sample, from its turns and their rows. -/
abbrev Summary := List String → List Metrics → Metrics

namespace Context

/-- The context of a sample before the first wave. -/
def start (systemPrompt : String) (sample : Sample) : Context :=
  match sample.givenTurns with
  | some turns => ⟨some turns, 0, prepareConversation systemPrompt [], [], [], none⟩
  | none =>
    ⟨none, 0, prepareConversation systemPrompt (sample.conversation.getD []), [], [], none⟩

/-- The conversation a wave asks for, if the context is still pending. -/
def asks (context : Context) : Option Conversation :=
  match context.result, context.turns with
  | some _, _ => none
  | none, none => if context.turnIdx = 0 then some context.messages else none
  | none, some turns =>
    turns[context.turnIdx]?.map (fun content => context.messages ++ [⟨.user, content⟩])

/-- The context after a wave collected it: a pending turn's user message has been appended. -/
def asked (context : Context) : Context :=
  match context.asks with
  | some conversation => { context with messages := conversation }
  | none => context

/-- A response handed back to its context. -/
def take (summary : Summary) (response : Response) (context : Context) : Context :=
  match context.turns with
  | none =>
    { context with result := some ⟨.text response.output, response.metrics⟩, turnIdx := 1 }
  | some turns =>
    let outputs := context.outputs ++ [response.output]
    let metricRows := context.metricRows ++ [response.metrics]
    let turnIdx := context.turnIdx + 1
    { context with
      outputs := outputs
      metricRows := metricRows
      messages := context.messages ++ [⟨.assistant, response.output⟩]
      turnIdx := turnIdx
      result :=
        if turns.length ≤ turnIdx then some ⟨.turns outputs, summary turns metricRows⟩
        else context.result }

end Context

/-- The contexts at the end, and the batch of each engine call in order. -/
structure Served where
  contexts : List Context
  waves : List (List Conversation)
deriving DecidableEq, Repr

/-- Positions of the contexts a wave collects. -/
def pendingContexts (contexts : List Context) : List Nat :=
  (List.range contexts.length).filter (fun i => (contexts[i]?.bind Context.asks).isSome)

/-- The loop over the waves. It has no bound in the source; `none` means that the fuel ran out. -/
def serveWaves (generateConversations : Engine) (summary : Summary) (algorithm : String) :
    Nat → List Context → Option (Except String Served)
  | 0, _ => none
  | fuel + 1, contexts =>
    let pendingConversations := contexts.filterMap Context.asks
    if pendingConversations.isEmpty then some (.ok ⟨contexts, []⟩)
    else
      let responses := generateConversations pendingConversations
      if responses.length ≠ pendingConversations.length then
        some (.error (algorithm ++ " batch returned " ++ toString responses.length ++
          " responses for " ++ toString pendingConversations.length ++ " requests"))
      else
        let contexts := Rows.scatter (pendingContexts contexts)
          (responses.map (Context.take summary)) (contexts.map Context.asked)
        (serveWaves generateConversations summary algorithm fuel contexts).map
          (Except.map (fun served => ⟨served.contexts, pendingConversations :: served.waves⟩))

/-- What a batched `generate` returns, with the batches it asked the engine for. -/
structure BatchResult where
  results : List (Option SampleResult)
  waves : List (List Conversation)
deriving DecidableEq, Repr

namespace BatchResult

/-- `engine_batch_size` of the batch metrics. -/
def engineBatchSize (batch : BatchResult) : Nat :=
  batch.waves.foldl (fun largest wave => max largest wave.length) 0

/-- `turn_batches` of the batch metrics. -/
def turnBatches (batch : BatchResult) : Nat := batch.waves.length

end BatchResult

/-- `generate` of both algorithms, up to the closing metrics and the name in its error. -/
def generateWaves (summary : Summary) (algorithm : String) (generateConversations : Engine)
    (systemPrompt : String) (fuel : Nat) (samples : List Sample) :
    Option (Except String BatchResult) :=
  if samples.isEmpty then some (.ok ⟨[], []⟩)
  else
    (serveWaves generateConversations summary algorithm fuel
      (samples.map (Context.start systemPrompt))).map
      (Except.map (fun served => ⟨served.contexts.map Context.result, served.waves⟩))

/-- The closing metrics of `BaselineAlgorithm.generate`. -/
def BaselineAlgorithm.summary : Summary := fun turns rows =>
  { totalTokens := some (sumOf Metrics.totalTokens rows)
    outputTokenIds := some (joined Metrics.outputTokenIds rows)
    iterations := some (sumOf Metrics.iterations rows)
    numTurns := some turns.length
    acceptLengthsRaw := none }

/-- `BaselineAlgorithm.generate`. -/
def BaselineAlgorithm.generate := generateWaves BaselineAlgorithm.summary "Baseline"

/-- The closing metrics of `EAGLE3Algorithm.generate`. -/
def EAGLE3Algorithm.summary : Summary := fun turns rows =>
  { totalTokens := some (sumOf Metrics.totalTokens rows)
    outputTokenIds := some (joined Metrics.outputTokenIds rows)
    iterations := some (sumOf Metrics.iterations rows)
    numTurns := some turns.length
    acceptLengthsRaw := some (joined Metrics.acceptLengthsRaw rows) }

/-- `EAGLE3Algorithm.generate`. -/
def EAGLE3Algorithm.generate := generateWaves EAGLE3Algorithm.summary "EAGLE3"

section waves

variable (summary : Summary) (respond : Conversation → Response)

/-- What one wave does to one context. -/
def Context.step (context : Context) : Context :=
  match context.asks with
  | some conversation => Context.take summary (respond conversation) context.asked
  | none => context

theorem Context.step_closed {context : Context} (closed : context.asks = none) :
    context.step summary respond = context := by
  simp only [step, closed]

/-- Handing the responses back by position steps every context. -/
theorem scatter_step (contexts : List Context) :
    Rows.scatter (pendingContexts contexts)
        (((contexts.filterMap Context.asks).map respond).map (Context.take summary))
        (contexts.map Context.asked) =
      contexts.map (Context.step summary respond) := by
  have collected : contexts.filterMap Context.asks =
      (List.range contexts.length).filterMap (fun i => contexts[i]?.bind Context.asks) := by
    rw [← Rows.filterMap_range contexts, List.filterMap_filterMap, Rows.filterMap_range]
  rw [collected, List.map_map, pendingContexts]
  apply List.ext_getElem?
  intro row
  by_cases inside : row < contexts.length
  · rw [Rows.scatter_offers _ _ _ _ List.nodup_range row (List.mem_range.mpr inside),
      List.getElem?_map, List.getElem?_map, List.getElem?_eq_getElem inside]
    cases pending : contexts[row].asks with
    | none => simp [pending, Context.step, Context.asked]
    | some conversation => simp [pending, Context.step]
  · rw [List.getElem?_eq_none (by simpa using inside), List.getElem?_eq_none (by simpa using inside)]

/-- The loop makes as many waves as the longest context needs, each over the contexts that are
still pending. -/
theorem serveWaves_eq (algorithm : String) (count fuel : Nat) (contexts : List Context)
    (pending : ∀ k < count, ∃ context ∈ contexts,
      ((Context.step summary respond)^[k] context).asks.isSome)
    (closed : ∀ context ∈ contexts, ((Context.step summary respond)^[count] context).asks = none)
    (enough : count < fuel) :
    serveWaves (fun batch => batch.map respond) summary algorithm fuel contexts =
      some (.ok ⟨contexts.map (Context.step summary respond)^[count],
        (List.range count).map (fun k => contexts.filterMap
          (fun context => ((Context.step summary respond)^[k] context).asks))⟩) := by
  induction count generalizing fuel contexts with
  | zero =>
    obtain ⟨fuel, rfl⟩ : ∃ less, fuel = less + 1 := ⟨fuel - 1, by omega⟩
    have finished : contexts.filterMap Context.asks = [] := by
      rw [List.filterMap_eq_nil_iff]
      exact closed
    simp [serveWaves, finished]
  | succ count ih =>
    obtain ⟨fuel, rfl⟩ : ∃ less, fuel = less + 1 := ⟨fuel - 1, by omega⟩
    have unfinished : contexts.filterMap Context.asks ≠ [] := by
      obtain ⟨context, member, asks⟩ := pending 0 (by omega)
      rw [Ne, List.filterMap_eq_nil_iff]
      intro finished
      simp [finished context member] at asks
    have later := ih fuel (contexts.map (Context.step summary respond))
      (by
        intro k below
        obtain ⟨context, member, asks⟩ := pending (k + 1) (by omega)
        exact ⟨_, List.mem_map_of_mem member, asks⟩)
      (by
        intro context member
        obtain ⟨before, listed, rfl⟩ := List.mem_map.mp member
        exact closed before listed)
      (by omega)
    rw [serveWaves, if_neg (by simpa using unfinished), if_neg (by simp), scatter_step]
    dsimp only
    rw [later]
    simp only [Option.map_some, List.range_succ_eq_map, List.map_cons, List.map_map,
      List.filterMap_map]
    rfl

end waves

section samples

variable (summary : Summary) (respond : Conversation → Response)

/-- The responses to turns asked one after the other, each with all that was said before. -/
def responses : Conversation → List String → List Response
  | _, [] => []
  | messages, turn :: rest =>
    let asked := messages ++ [⟨.user, turn⟩]
    respond asked :: responses (asked ++ [⟨.assistant, (respond asked).output⟩]) rest

@[simp] theorem responses_length (messages : Conversation) (turns : List String) :
    (responses respond messages turns).length = turns.length := by
  induction turns generalizing messages with
  | nil => rfl
  | cons turn rest ih => simp [responses, ih]

/-- A turn is answered after the earlier turns and their replies. -/
theorem responses_getElem? (messages : Conversation) (turns : List String) (k : Nat) :
    (responses respond messages turns)[k]? =
      turns[k]?.map (fun turn => respond (messages ++
        dialogue (turns.take k) ((responses respond messages turns).map Response.output) ++
        [⟨.user, turn⟩])) := by
  induction turns generalizing messages k with
  | nil => simp [responses]
  | cons turn rest ih =>
    cases k with
    | zero => simp [responses]
    | succ k =>
      simp only [responses, List.getElem?_cons_succ, ih, List.take_succ_cons,
        List.map_cons, dialogue_cons, List.append_assoc, List.cons_append, List.nil_append]

/-- The context of a multi-turn sample after some waves. -/
def reached (messages : Conversation) (turns : List String) (k : Nat) : Context :=
  let answered := (responses respond messages turns).take k
  { turns := some turns
    turnIdx := k
    messages := messages ++
      dialogue (turns.take k) ((responses respond messages turns).map Response.output)
    outputs := answered.map Response.output
    metricRows := answered.map Response.metrics
    result :=
      if turns.length ≤ k then
        some ⟨.turns (answered.map Response.output), summary turns (answered.map Response.metrics)⟩
      else none }

theorem reached_asks (messages : Conversation) (turns : List String) (k : Nat) :
    (reached summary respond messages turns k).asks =
      turns[k]?.map (fun turn => messages ++
        dialogue (turns.take k) ((responses respond messages turns).map Response.output) ++
        [⟨.user, turn⟩]) := by
  by_cases finished : turns.length ≤ k
  · rw [List.getElem?_eq_none finished]
    simp [reached, Context.asks, finished]
  · simp [reached, Context.asks, finished]

theorem reached_step (messages : Conversation) (turns : List String) (k : Nat)
    (pending : k < turns.length) :
    (reached summary respond messages turns k).step summary respond =
      reached summary respond messages turns (k + 1) := by
  obtain ⟨turn, turnAt⟩ : ∃ turn, turns[k]? = some turn := ⟨_, List.getElem?_eq_getElem pending⟩
  have asks := reached_asks summary respond messages turns k
  have answer := responses_getElem? respond messages turns k
  rw [turnAt, Option.map_some] at asks answer
  have extended : (responses respond messages turns).take (k + 1) =
      (responses respond messages turns).take k ++ [respond (messages ++
        dialogue (turns.take k) ((responses respond messages turns).map Response.output) ++
        [⟨.user, turn⟩])] := by
    rw [List.take_add_one, answer]
    rfl
  have said := dialogue_take_succ turns ((responses respond messages turns).map Response.output) k
    turn _ turnAt (by rw [List.getElem?_map, answer, Option.map_some])
  have unfinished : ¬ turns.length ≤ k := by omega
  simp only [Context.step, Context.asked, asks]
  simp only [reached, Context.take, extended, said, unfinished, if_false, List.map_append,
    List.map_cons, List.map_nil, List.append_assoc, List.cons_append, List.nil_append]

/-- A multi-turn sample moves on by one turn per wave until it is finished. -/
theorem reached_iterate (messages : Conversation) (turns : List String) (k : Nat) :
    (Context.step summary respond)^[k] (reached summary respond messages turns 0) =
      reached summary respond messages turns (min k turns.length) := by
  induction k with
  | zero => simp
  | succ k ih =>
    rw [Function.iterate_succ_apply', ih]
    by_cases pending : k < turns.length
    · rw [Nat.min_eq_left pending.le, Nat.min_eq_left pending,
        reached_step summary respond messages turns k pending]
    · have closed : (reached summary respond messages turns turns.length).asks = none := by
        rw [reached_asks, List.getElem?_eq_none le_rfl]
        rfl
      rw [Nat.min_eq_right (by omega), Nat.min_eq_right (by omega),
        Context.step_closed summary respond closed]

theorem multiTurn_fold (turns : List String) (state : MultiTurn) :
    turns.foldlM (MultiTurn.turn (fun batch => batch.map respond)) state =
      let answered := responses respond state.messages turns
      some {
        messages := state.messages ++ dialogue turns (answered.map Response.output)
        allOutputs := state.allOutputs ++ answered.map Response.output
        totalTokens := state.totalTokens + sumOf Metrics.totalTokens (answered.map Response.metrics)
        totalIterations :=
          state.totalIterations + sumOf Metrics.iterations (answered.map Response.metrics)
        allAcceptLengths :=
          state.allAcceptLengths ++
            joined Metrics.acceptLengthsRaw (answered.map Response.metrics) } := by
  induction turns generalizing state with
  | nil => simp [responses, sumOf, joined]
  | cons turn rest ih =>
    rw [List.foldlM_cons, MultiTurn.turn]
    simp only [generateOnce, List.map_cons, List.map_nil, List.head?_cons, Option.bind_eq_bind,
      Option.bind_some, Option.pure_def]
    rw [ih]
    simp [responses, sumOf, joined, Nat.add_assoc]

/-- How often a sample is asked for. -/
def Sample.turnCount (sample : Sample) : Nat :=
  match sample.givenTurns with
  | some turns => turns.length
  | none => 1

theorem Sample.givenTurns_pos {sample : Sample} {turns : List String}
    (given : sample.givenTurns = some turns) : 0 < turns.length := by
  unfold givenTurns at given
  split at given
  · cases given
    simp
  · cases given

/-- The conversation of a turn: what was said in the sample's own earlier turns, with the given
replies, and then the user message of the turn. -/
def conversationAt (systemPrompt : String) (sample : Sample) (output : Output) (k : Nat) :
    Option Conversation :=
  match sample.givenTurns, output with
  | some turns, .turns replies =>
    turns[k]?.map (fun turn => prepareConversation systemPrompt [] ++
      dialogue (turns.take k) replies ++ [⟨.user, turn⟩])
  | some _, .text _ => none
  | none, _ =>
    if k = 0 then some (prepareConversation systemPrompt (sample.conversation.getD [])) else none

/-- What the waves return for a sample. -/
def batchedResult (systemPrompt : String) (sample : Sample) : SampleResult :=
  match sample.givenTurns with
  | some turns =>
    let answered := responses respond (prepareConversation systemPrompt []) turns
    ⟨.turns (answered.map Response.output), summary turns (answered.map Response.metrics)⟩
  | none =>
    let response := respond (prepareConversation systemPrompt (sample.conversation.getD []))
    ⟨.text response.output, response.metrics⟩

theorem start_turns {systemPrompt : String} {sample : Sample} {turns : List String}
    (given : sample.givenTurns = some turns) :
    Context.start systemPrompt sample =
      reached summary respond (prepareConversation systemPrompt []) turns 0 := by
  have turned := Sample.givenTurns_pos given
  have unfinished : ¬ turns.length ≤ 0 := by omega
  simp [Context.start, given, reached, unfinished]

theorem start_single {systemPrompt : String} {sample : Sample} (given : sample.givenTurns = none)
    (k : Nat) :
    (Context.step summary respond)^[k + 1] (Context.start systemPrompt sample) =
      { turns := none
        turnIdx := 1
        messages := prepareConversation systemPrompt (sample.conversation.getD [])
        outputs := []
        metricRows := []
        result := some (batchedResult summary respond systemPrompt sample) } := by
  induction k with
  | zero =>
    simp [Context.start, given, Context.step, Context.asks, Context.asked, Context.take, batchedResult]
  | succ k ih =>
    rw [Function.iterate_succ_apply', ih]
    exact Context.step_closed summary respond rfl

theorem start_asks (systemPrompt : String) (sample : Sample) (k : Nat) :
    ((Context.step summary respond)^[k] (Context.start systemPrompt sample)).asks =
      conversationAt systemPrompt sample (batchedResult summary respond systemPrompt sample).output
        k := by
  cases given : sample.givenTurns with
  | some turns =>
    rw [start_turns summary respond given, reached_iterate, reached_asks]
    simp only [conversationAt, batchedResult, given]
    by_cases pending : k < turns.length
    · rw [Nat.min_eq_left pending.le]
    · rw [Nat.min_eq_right (by omega), List.getElem?_eq_none le_rfl,
        List.getElem?_eq_none (by omega)]
      rfl
  | none =>
    cases k with
    | zero => simp [Context.start, given, Context.asks, conversationAt]
    | succ k =>
      rw [start_single summary respond given]
      simp [Context.asks, conversationAt, given]

theorem conversationAt_isSome (systemPrompt : String) (sample : Sample) (k : Nat) :
    (conversationAt systemPrompt sample (batchedResult summary respond systemPrompt sample).output
      k).isSome ↔ k < sample.turnCount := by
  cases given : sample.givenTurns with
  | some turns => simp [conversationAt, batchedResult, given, Sample.turnCount]
  | none =>
    have once : sample.turnCount = 1 := by simp [Sample.turnCount, given]
    rw [once, Nat.lt_one_iff]
    simp [conversationAt, given]

theorem start_result (systemPrompt : String) (sample : Sample) (k : Nat)
    (finished : sample.turnCount ≤ k) :
    ((Context.step summary respond)^[k] (Context.start systemPrompt sample)).result =
      some (batchedResult summary respond systemPrompt sample) := by
  cases given : sample.givenTurns with
  | some turns =>
    rw [Sample.turnCount, given] at finished
    rw [start_turns summary respond given, reached_iterate, Nat.min_eq_right finished]
    simp only [reached, batchedResult, given, le_rfl, if_true]
    rw [List.take_of_length_le (by simp)]
  | none =>
    have once : sample.turnCount = 1 := by simp [Sample.turnCount, given]
    obtain ⟨less, rfl⟩ : ∃ less, k = less + 1 := ⟨k - 1, by omega⟩
    rw [start_single summary respond given]

/-- The turns of the longest sample. -/
def turnWaves (samples : List Sample) : Nat := (samples.map Sample.turnCount).foldr max 0

theorem turnCount_le {samples : List Sample} {sample : Sample} (member : sample ∈ samples) :
    sample.turnCount ≤ turnWaves samples := by
  induction samples with
  | nil => simp at member
  | cons first rest ih =>
    simp only [turnWaves, List.map_cons, List.foldr_cons] at ih ⊢
    rcases List.mem_cons.mp member with rfl | later
    · exact le_max_left _ _
    · exact (ih later).trans (le_max_right _ _)

theorem exists_turnCount {samples : List Sample} {k : Nat} (below : k < turnWaves samples) :
    ∃ sample ∈ samples, k < sample.turnCount := by
  induction samples with
  | nil => simp [turnWaves] at below
  | cons first rest ih =>
    simp only [turnWaves, List.map_cons, List.foldr_cons] at ih below
    rcases lt_max_iff.mp below with here | later
    · exact ⟨first, List.mem_cons_self, here⟩
    · obtain ⟨sample, member, longer⟩ := ih later
      exact ⟨sample, List.mem_cons_of_mem _ member, longer⟩

/-- A batched `generate` returns after as many waves as the longest sample has turns, and each wave
asks for that turn of the samples that have it. -/
theorem generateWaves_eq (algorithm systemPrompt : String) (fuel : Nat) (samples : List Sample)
    (enough : turnWaves samples < fuel) :
    generateWaves summary algorithm (fun batch => batch.map respond) systemPrompt fuel samples =
      some (.ok ⟨samples.map (fun sample => some (batchedResult summary respond systemPrompt sample)),
        (List.range (turnWaves samples)).map (fun k => samples.filterMap (fun sample =>
          conversationAt systemPrompt sample
            (batchedResult summary respond systemPrompt sample).output k))⟩) := by
  cases samples with
  | nil => rfl
  | cons first rest =>
    generalize listed : first :: rest = samples at enough ⊢
    have served := serveWaves_eq summary respond algorithm (turnWaves samples) fuel
      (samples.map (Context.start systemPrompt))
      (by
        intro k below
        obtain ⟨sample, member, longer⟩ := exists_turnCount below
        refine ⟨_, List.mem_map_of_mem member, ?_⟩
        rw [start_asks, conversationAt_isSome]
        exact longer)
      (by
        intro context member
        obtain ⟨sample, listed, rfl⟩ := List.mem_map.mp member
        rw [← Option.not_isSome_iff_eq_none, start_asks, conversationAt_isSome]
        exact Nat.not_lt.mpr (turnCount_le listed))
      enough
    have nonempty : samples.isEmpty = false := by simp [← listed]
    rw [generateWaves, nonempty, if_neg (by simp), served]
    simp only [Option.map_some, Except.map, List.map_map, List.filterMap_map, Function.comp_def,
      start_asks]
    have results : samples.map (fun sample => ((Context.step summary respond)^[turnWaves samples]
          (Context.start systemPrompt sample)).result) =
        samples.map (fun sample => some (batchedResult summary respond systemPrompt sample)) :=
      List.map_congr_left (fun sample member =>
        start_result summary respond systemPrompt sample _ (turnCount_le member))
    rw [results]

/-- The metrics that `_generate_multi_turn` accumulates, as a closing sum. -/
def serialSummary : Summary := fun turns rows =>
  { totalTokens := some (sumOf Metrics.totalTokens rows)
    outputTokenIds := none
    iterations := some (sumOf Metrics.iterations rows)
    numTurns := some turns.length
    acceptLengthsRaw := some (joined Metrics.acceptLengthsRaw rows) }

theorem generateSample_eq (systemPrompt : String) (sample : Sample) :
    generateSample (fun batch => batch.map respond) systemPrompt sample =
      some (batchedResult serialSummary respond systemPrompt sample) := by
  cases given : sample.givenTurns with
  | some turns =>
    simp [generateSample, generateMultiTurn, given, multiTurn_fold, batchedResult, serialSummary]
  | none => simp [generateSample, given, generateOnce, batchedResult]

end samples

/-- Two results with the same output and the same counts. -/
structure SameResult (batched serial : SampleResult) : Prop where
  output : batched.output = serial.output
  totalTokens : batched.metrics.totalTokens = serial.metrics.totalTokens
  iterations : batched.metrics.iterations = serial.metrics.iterations
  numTurns : batched.metrics.numTurns = serial.metrics.numTurns

/-- The same, with the accepted lengths of each round. -/
structure SameRounds (batched serial : SampleResult) : Prop extends SameResult batched serial where
  acceptLengthsRaw : batched.metrics.acceptLengthsRaw = serial.metrics.acceptLengthsRaw

/-- What each wave asks for: the turn of that number of every sample that has it, said after the
sample's own earlier turns and the replies of its own result. -/
def turnConversations (systemPrompt : String) (samples : List Sample)
    (results : List SampleResult) : List (List Conversation) :=
  (List.range (turnWaves samples)).map (fun k => (samples.zip results).filterMap
    (fun served => conversationAt systemPrompt served.1 served.2.output k))

section results

variable (respond : Conversation → Response) (systemPrompt : String)

theorem baseline_same (sample : Sample) :
    SameResult (batchedResult BaselineAlgorithm.summary respond systemPrompt sample)
      (batchedResult serialSummary respond systemPrompt sample) := by
  unfold batchedResult
  cases sample.givenTurns with
  | some turns => exact ⟨rfl, rfl, rfl, rfl⟩
  | none => exact ⟨rfl, rfl, rfl, rfl⟩

theorem eagle3_same (sample : Sample) :
    SameRounds (batchedResult EAGLE3Algorithm.summary respond systemPrompt sample)
      (batchedResult serialSummary respond systemPrompt sample) := by
  unfold batchedResult
  cases sample.givenTurns with
  | some turns => exact ⟨⟨rfl, rfl, rfl, rfl⟩, rfl⟩
  | none => exact ⟨⟨rfl, rfl, rfl, rfl⟩, rfl⟩

theorem turnConversations_eq (samples : List Sample) (summary : Summary) :
    (List.range (turnWaves samples)).map (fun k => samples.filterMap (fun sample =>
        conversationAt systemPrompt sample
          (batchedResult summary respond systemPrompt sample).output k)) =
      turnConversations systemPrompt samples
        (samples.map (batchedResult serialSummary respond systemPrompt)) := by
  have paired : samples.zip (samples.map (batchedResult serialSummary respond systemPrompt)) =
      samples.map (fun sample => (sample, batchedResult serialSummary respond systemPrompt sample)) := by
    rw [List.zip_map_right, List.zip, List.zipWith_self, List.map_map]
    rfl
  have output (sample : Sample) : (batchedResult summary respond systemPrompt sample).output =
      (batchedResult serialSummary respond systemPrompt sample).output := by
    unfold batchedResult
    cases sample.givenTurns <;> rfl
  simp only [turnConversations, paired, List.filterMap_map, output]
  rfl

end results

/-- Serving in waves gives every sample the result of the serial path, and each turn is generated
from the earlier messages of its own sample. -/
theorem waves_match_serial (respond : Conversation → Response) (systemPrompt : String)
    (samples : List Sample) :
    ∃ baseline eagle3 serial : List SampleResult,
      samples.map (generateSample (fun batch => batch.map respond) systemPrompt) =
        serial.map some ∧
      List.Forall₂ SameResult baseline serial ∧
      List.Forall₂ SameRounds eagle3 serial ∧
      ∀ fuel > turnWaves samples,
        BaselineAlgorithm.generate (fun batch => batch.map respond) systemPrompt fuel samples =
          some (.ok ⟨baseline.map some, turnConversations systemPrompt samples serial⟩) ∧
        EAGLE3Algorithm.generate (fun batch => batch.map respond) systemPrompt fuel samples =
          some (.ok ⟨eagle3.map some, turnConversations systemPrompt samples serial⟩) := by
  refine ⟨samples.map (batchedResult BaselineAlgorithm.summary respond systemPrompt),
    samples.map (batchedResult EAGLE3Algorithm.summary respond systemPrompt),
    samples.map (batchedResult serialSummary respond systemPrompt), ?_, ?_, ?_, ?_⟩
  · rw [List.map_map]
    exact List.map_congr_left (fun sample _ => generateSample_eq respond systemPrompt sample)
  · rw [List.forall₂_map_left_iff, List.forall₂_map_right_iff, List.forall₂_same]
    exact fun sample _ => baseline_same respond systemPrompt sample
  · rw [List.forall₂_map_left_iff, List.forall₂_map_right_iff, List.forall₂_same]
    exact fun sample _ => eagle3_same respond systemPrompt sample
  · intro fuel enough
    rw [BaselineAlgorithm.generate, EAGLE3Algorithm.generate, generateWaves_eq _ _ _ _ _ _ enough,
      generateWaves_eq _ _ _ _ _ _ enough, List.map_map, List.map_map,
      turnConversations_eq respond systemPrompt samples BaselineAlgorithm.summary,
      turnConversations_eq respond systemPrompt samples EAGLE3Algorithm.summary]
    exact ⟨rfl, rfl⟩

end SpecBlock.Conversations
