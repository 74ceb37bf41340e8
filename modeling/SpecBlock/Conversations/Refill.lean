import SpecBlock.Conversations.Messages
import SpecBlock.Foundation.Runs

/-!
# Continuous refill of the training-data generator

The generator keeps an active pool of conversations and a queue of pending ones. A round prompts
each active conversation for its next user turn, calls the engine once, drops what has finished or
failed, and refills the pool. Finished and failed conversations wait in a buffer until a checkpoint
writes them out.

A round that has no prompt leaves the loop. The source takes it for the end of all conversations,
but the pool may have finished in one round while others are still pending: these are lost. Nothing
is lost exactly when every round begun with pending conversations has a prompt to send.

The engine and the prompt builder are arbitrary in each call. Drawn temperatures and sampling
parameters only reach the engine and are left out.
-/

namespace SpecBlock.Conversations

/-- A conversation of the queue. -/
structure Item where
  id : String
  conversations : Conversation
deriving DecidableEq, Repr

/-- The state of a conversation being generated. -/
structure ConversationState where
  conversationId : String
  inputConversations : Conversation
  currentMessages : Conversation
  currentTurn : Nat
  completed : Bool
  error : Option String
deriving DecidableEq, Repr

/-- The next user message at or after a turn, with its turn. -/
def nextUser : Conversation → Nat → Nat × Option String
  | [], turn => (turn, none)
  | message :: rest, turn =>
    if message.role = .user then (turn, some message.content) else nextUser rest (turn + 1)

namespace ConversationState

/-- `create_state_from_item`. -/
def ofItem (item : Item) : ConversationState :=
  ⟨item.id, item.conversations, [], 0, false, none⟩

/-- The queued conversation of a state. -/
def item (state : ConversationState) : Item :=
  ⟨state.conversationId, state.inputConversations⟩

/-- `get_next_user_turn` moves past messages of other roles. -/
def getNextUserTurn (state : ConversationState) : Option String × ConversationState :=
  let next := nextUser (state.inputConversations.drop state.currentTurn) state.currentTurn
  (next.2, { state with currentTurn := next.1 })

/-- `add_user_message`. -/
def addUserMessage (content : String) (state : ConversationState) : ConversationState :=
  { state with currentMessages := state.currentMessages ++ [⟨.user, content⟩] }

/-- `add_assistant_response`. -/
def addAssistantResponse (response : String) (state : ConversationState) : ConversationState :=
  { state with
    currentMessages := state.currentMessages ++ [⟨.assistant, response⟩]
    currentTurn := state.currentTurn + 1 }

end ConversationState

/-- One output of the engine: its text, or what reading the text raises. -/
abbrev EngineOutput := Except String String

/-- What the engine returns: a list of outputs, or one bare output. -/
inductive EngineOutputs where
  | bare (output : EngineOutput)
  | list (outputs : List EngineOutput)
deriving Repr

/-- The outputs as a list. -/
def EngineOutputs.toList : EngineOutputs → List EngineOutput
  | .bare output => [output]
  | .list outputs => outputs

/-- The arguments of a run. Prompt builder and engine may answer differently in each round, and may
raise. An engine that returns gives one output per prompt. -/
structure Setup where
  batchSize : Nat
  checkpointInterval : Nat
  systemPrompt : String
  buildPrompt : (round position : Nat) → Conversation → Except String String
  generate : (round : Nat) → List String → Except String EngineOutputs
  batchSize_pos : 0 < batchSize
  checkpointInterval_pos : 0 < checkpointInterval
  onePerPrompt : ∀ round prompts outputs, generate round prompts = .ok outputs →
    outputs.toList.length = prompts.length

/-- A line of the output file. -/
structure OutputLine where
  conversationId : String
  conversations : Conversation
deriving DecidableEq, Repr

/-- A line of the error file. -/
structure ErrorLine where
  conversationId : String
  conversations : Conversation
  error : String
  inputConversations : Conversation
deriving DecidableEq, Repr

/-- What has been written and counted. -/
structure Files where
  out : List OutputLine
  err : List ErrorLine
  successCount : Nat
  errorCount : Nat
deriving DecidableEq, Repr

/-- Write one state of the buffer. -/
def Files.write (files : Files) (state : ConversationState) : Files :=
  match state.error with
  | some error =>
    { files with
      err := files.err ++
        [⟨state.conversationId, state.currentMessages, error, state.inputConversations⟩]
      errorCount := files.errorCount + 1 }
  | none =>
    { files with
      out := files.out ++ [⟨state.conversationId, state.currentMessages⟩]
      successCount := files.successCount + 1 }

/-- Write the whole buffer. -/
def Files.writeAll (files : Files) (buffer : List ConversationState) : Files :=
  buffer.foldl Files.write files

/-- The variables of the loop. -/
structure RefillState where
  pendingQueue : List Item
  activePool : List ConversationState
  completedBuffer : List ConversationState
  files : Files
  roundNum : Nat
deriving DecidableEq, Repr

/-- What collecting makes of an active conversation. -/
inductive Collected where
  | finished (state : ConversationState)
  | failed (state : ConversationState)
  | prompted (state : ConversationState) (prompt : String)
deriving DecidableEq, Repr

namespace Collected

/-- The state, if it goes to the buffer. -/
def newlyCompleted : Collected → Option ConversationState
  | .finished state => some state
  | .failed state => some state
  | .prompted _ _ => none

/-- The state and its prompt, if it goes to the batch. -/
def batched : Collected → Option (ConversationState × String)
  | .prompted state prompt => some (state, prompt)
  | _ => none

end Collected

/-- The refill loop, also used for the first pool. -/
def refill (batchSize : Nat) : List Item → List ConversationState →
    List Item × List ConversationState
  | [], active => ([], active)
  | item :: pending, active =>
    if active.length < batchSize then refill batchSize pending (active ++ [.ofItem item])
    else (item :: pending, active)

/-- Hand the outputs to the batch. A failed extraction leaves an error in the state. -/
def receive : List ConversationState → List EngineOutput → List ConversationState
  | state :: states, output :: outputs =>
    (match output with
      | .ok text => state.addAssistantResponse text
      | .error reason =>
        { state with error := some ("Response extraction failed: " ++ reason) }) ::
      receive states outputs
  | states, _ => states

namespace Setup

variable (setup : Setup)

/-- The messages a prompt is built from. -/
def promptMessages (state : ConversationState) (userContent : String) : Conversation :=
  (if setup.systemPrompt = "" then [] else [⟨.system, setup.systemPrompt⟩]) ++
    state.currentMessages ++ [⟨.user, userContent⟩]

/-- The collecting loop on one active conversation. -/
def collect (round position : Nat) (state : ConversationState) : Collected :=
  let (userContent, state) := state.getNextUserTurn
  match userContent with
  | none => .finished { state with completed := true }
  | some userContent =>
    let messages := setup.promptMessages state userContent
    let state := state.addUserMessage userContent
    match setup.buildPrompt round position messages with
    | .ok prompt => .prompted state prompt
    | .error reason =>
      .failed { state with error := some ("Prompt building failed: " ++ reason) }

/-- The collecting loop. -/
def collectAll (round : Nat) (active : List ConversationState) : List Collected :=
  active.mapIdx (fun position state => setup.collect round position state)

/-- The batch after the engine call, finished or failed states included. -/
def generated (round : Nat) (batch : List (ConversationState × String)) :
    List ConversationState :=
  match setup.generate round (batch.map Prod.snd) with
  | .ok outputs => receive (batch.map Prod.fst) outputs.toList
  | .error reason => (batch.map Prod.fst).map (fun state =>
      { state with error := some ("Batch generation failed: " ++ reason) })

/-- The checkpoint at the end of a round. -/
def checkpoint (run : RefillState) : RefillState :=
  if setup.checkpointInterval ≤ run.completedBuffer.length then
    { run with files := run.files.writeAll run.completedBuffer, completedBuffer := [] }
  else run

/-- The end of a round after the engine call. Every state outside the batch is completed or has an
error, so only states of the batch can stay active. -/
def settle (run : RefillState) (answered : List ConversationState) : RefillState :=
  let active := answered.filter (fun state => !state.completed && state.error.isNone)
  let refilled := refill setup.batchSize run.pendingQueue active
  setup.checkpoint { run with
    pendingQueue := refilled.1
    activePool := refilled.2
    completedBuffer := run.completedBuffer ++ answered.filter (fun state => state.error.isSome) }

/-- How a round ends. -/
inductive RoundEnd where
  | exit (run : RefillState)
  | next (run : RefillState)
deriving DecidableEq, Repr

/-- One round of the loop. -/
def round (run : RefillState) : RoundEnd :=
  let roundNum := run.roundNum + 1
  let collected := setup.collectAll roundNum run.activePool
  let run := { run with
    roundNum := roundNum
    completedBuffer := run.completedBuffer ++ collected.filterMap Collected.newlyCompleted }
  let batch := collected.filterMap Collected.batched
  if batch.isEmpty then .exit run else .next (setup.settle run (setup.generated roundNum batch))

/-- The loop variables before the first round. -/
def start (queue : List Item) : RefillState :=
  let filled := refill setup.batchSize queue []
  ⟨filled.1, filled.2, [], ⟨[], [], 0, 0⟩, 0⟩

/-- The loop, which has no bound in the source. `none` means that the fuel ran out. -/
def loop : Nat → RefillState → Option RefillState
  | 0, _ => none
  | fuel + 1, run =>
    if run.activePool.isEmpty then some run
    else match setup.round run with
      | .exit run => some run
      | .next run => loop fuel run

/-- `process_multi_turn_continuous_refill`: the pending queue it leaves and what it has written. -/
def process (fuel : Nat) (queue : List Item) : Option (List Item × Files) :=
  (setup.loop fuel (setup.start queue)).map
    (fun run => (run.pendingQueue, run.files.writeAll run.completedBuffer))

end Setup

/-- The user messages of a conversation, in order. -/
def userTurns (conversation : Conversation) : List String :=
  (conversation.filter (fun message => message.role = .user)).map Message.content

@[simp] theorem userTurns_nil : userTurns [] = [] := rfl

theorem userTurns_append (first second : Conversation) :
    userTurns (first ++ second) = userTurns first ++ userTurns second := by
  simp [userTurns]

theorem nextUser_cases (conversation : Conversation) (turn : Nat) :
    (nextUser conversation turn = (turn + conversation.length, none) ∧
        userTurns conversation = []) ∨
      ∃ k content, nextUser conversation turn = (turn + k, some content) ∧
        conversation[k]? = some ⟨.user, content⟩ ∧ userTurns (conversation.take k) = [] := by
  induction conversation generalizing turn with
  | nil => exact .inl ⟨rfl, rfl⟩
  | cons message rest ih =>
    by_cases isUser : message.role = .user
    · obtain ⟨role, content⟩ := message
      obtain rfl : role = .user := isUser
      exact .inr ⟨0, content, by simp [nextUser], rfl, rfl⟩
    · have skipped : nextUser (message :: rest) turn = nextUser rest (turn + 1) := by
        simp [nextUser, isUser]
      have silent (others : Conversation) :
          userTurns (message :: others) = userTurns others := by
        simp [userTurns, isUser]
      rw [skipped]
      rcases ih (turn + 1) with ⟨missing, none⟩ | ⟨k, content, found, here, before⟩
      · left
        rw [missing, silent, List.length_cons]
        exact ⟨by rw [Nat.add_assoc, Nat.add_comm 1], none⟩
      · right
        refine ⟨k + 1, content, ?_, here, ?_⟩
        · rw [found, Nat.add_assoc, Nat.add_comm 1]
        · rw [List.take_succ_cons, silent, before]

/-- The messages are these user turns, each with one reply. -/
def Answers (turns : List String) (said : Conversation) : Prop :=
  ∃ replies : List String, replies.length = turns.length ∧ said = dialogue turns replies

theorem Answers.snoc {turns : List String} {said : Conversation} (answers : Answers turns said)
    (turn reply : String) :
    Answers (turns ++ [turn]) (said ++ [⟨.user, turn⟩, ⟨.assistant, reply⟩]) := by
  obtain ⟨replies, matched, rfl⟩ := answers
  exact ⟨replies ++ [reply], by simp [matched], (dialogue_append turns replies turn reply matched).symm⟩

namespace ConversationState

/-- Every user turn of the conversation has one reply after it, in order. -/
def Replied (state : ConversationState) : Prop :=
  Answers (userTurns state.inputConversations) state.currentMessages

/-- A state of the active pool at the start of a round. -/
structure Active (state : ConversationState) : Prop where
  running : state.completed = false
  fine : state.error = none
  within : state.currentTurn ≤ state.inputConversations.length
  answers : Answers (userTurns (state.inputConversations.take state.currentTurn))
    state.currentMessages

/-- A state of the batch, whose last user message has no reply yet. -/
structure Waiting (state : ConversationState) : Prop where
  running : state.completed = false
  fine : state.error = none
  asked : ∃ content said,
    state.inputConversations[state.currentTurn]? = some ⟨.user, content⟩ ∧
    state.currentMessages = said ++ [⟨.user, content⟩] ∧
    Answers (userTurns (state.inputConversations.take state.currentTurn)) said

theorem active_ofItem (item : Item) : (ofItem item).Active :=
  ⟨rfl, rfl, Nat.zero_le _, [], rfl, rfl⟩

theorem Waiting.replied {state : ConversationState} (waiting : state.Waiting) (response : String) :
    (state.addAssistantResponse response).Active where
  running := waiting.running
  fine := waiting.fine
  within := by
    obtain ⟨content, said, here, -, -⟩ := waiting.asked
    exact (List.getElem?_eq_some_iff.mp here).1
  answers := by
    obtain ⟨content, said, here, messages, answers⟩ := waiting.asked
    have turns : userTurns (state.inputConversations.take (state.currentTurn + 1)) =
        userTurns (state.inputConversations.take state.currentTurn) ++ [content] := by
      rw [List.take_add_one, here, userTurns_append]
      rfl
    show Answers (userTurns (state.inputConversations.take (state.currentTurn + 1)))
      (state.currentMessages ++ [⟨.assistant, response⟩])
    rw [turns, messages, List.append_assoc]
    exact answers.snoc content response

/-- An active state is done, or its next user message starts the wait for a reply. -/
theorem Active.next {state : ConversationState} (active : state.Active) :
    (state.getNextUserTurn.1 = none ∧ state.getNextUserTurn.2.Replied) ∨
      ∃ content, state.getNextUserTurn.1 = some content ∧
        (state.getNextUserTurn.2.addUserMessage content).Waiting ∧
        state.currentTurn ≤ state.getNextUserTurn.2.currentTurn := by
  obtain ⟨replies, matched, said⟩ := active.answers
  have whole := List.take_append_drop state.currentTurn state.inputConversations
  rcases nextUser_cases (state.inputConversations.drop state.currentTurn) state.currentTurn with
    ⟨missing, silent⟩ | ⟨k, content, found, here, silent⟩
  · left
    refine ⟨by simp [getNextUserTurn, missing], replies, ?_, ?_⟩
    · rw [matched, getNextUserTurn]
      conv_rhs => rw [← whole, userTurns_append, silent, List.append_nil]
    · show state.currentMessages = dialogue (userTurns state.inputConversations) replies
      rw [said]
      conv_rhs => rw [← whole, userTurns_append, silent, List.append_nil]
  · right
    have turns : userTurns (state.inputConversations.take (state.currentTurn + k)) =
        userTurns (state.inputConversations.take state.currentTurn) := by
      rw [List.take_add, userTurns_append, silent, List.append_nil]
    refine ⟨content, by simp [getNextUserTurn, found], ?_, by simp [getNextUserTurn, found]⟩
    refine ⟨active.running, active.fine, content, state.currentMessages, ?_, rfl, ?_⟩
    · simpa [getNextUserTurn, found, addUserMessage, List.getElem?_drop] using here
    · simp only [getNextUserTurn, found, addUserMessage, turns]
      exact active.answers

/-- What is left of a conversation, the round that detects its end included. -/
def remaining (state : ConversationState) : Nat :=
  state.inputConversations.length + 1 - state.currentTurn

end ConversationState

/-- What collecting makes of an active state. -/
inductive Collects (state : ConversationState) : Collected → Prop
  | finished (after : ConversationState) (same : after.item = state.item)
      (fine : after.error = none) (replied : after.Replied) : Collects state (.finished after)
  | failed (after : ConversationState) (same : after.item = state.item)
      (wrong : after.error.isSome) : Collects state (.failed after)
  | prompted (after : ConversationState) (prompt : String) (same : after.item = state.item)
      (waiting : after.Waiting) (later : state.currentTurn ≤ after.currentTurn) :
      Collects state (.prompted after prompt)

/-- Collecting an active state finishes it, fails it or puts it into the batch. -/
theorem Setup.collect_collects (setup : Setup) (round position : Nat) {state : ConversationState}
    (active : state.Active) : Collects state (setup.collect round position state) := by
  rcases active.next with ⟨missing, replied⟩ | ⟨content, found, waiting, later⟩
  · simp only [Setup.collect, missing]
    exact .finished _ rfl active.fine replied
  · simp only [Setup.collect, found]
    cases setup.buildPrompt round position
        (setup.promptMessages state.getNextUserTurn.2 content) with
    | ok prompt => exact .prompted _ _ rfl waiting later
    | error reason => exact .failed _ rfl rfl

/-- Every collected entry comes from the active state at its position. -/
theorem collected_forall₂ {active : List ConversationState}
    (collect : Nat → ConversationState → Collected)
    (each : ∀ position, ∀ state ∈ active, Collects state (collect position state)) :
    List.Forall₂ Collects active (active.mapIdx collect) := by
  induction active generalizing collect with
  | nil => exact .nil
  | cons state rest ih =>
    rw [List.mapIdx_cons]
    exact .cons (each 0 state List.mem_cons_self) (ih _
      (fun position other member => each (position + 1) other (List.mem_cons_of_mem _ member)))

theorem collected_count {active : List ConversationState} {collected : List Collected}
    (collects : List.Forall₂ Collects active collected) (item : Item) :
    (active.map ConversationState.item).count item =
      ((collected.filterMap Collected.newlyCompleted).map ConversationState.item).count item +
        (((collected.filterMap Collected.batched).map Prod.fst).map
          ConversationState.item).count item := by
  induction collects with
  | nil => rfl
  | cons here _ ih =>
    cases here with
    | finished after same =>
      simp only [List.map_cons, List.count_cons, Collected.newlyCompleted, Collected.batched,
        List.filterMap_cons, same, ih]
      omega
    | failed after same =>
      simp only [List.map_cons, List.count_cons, Collected.newlyCompleted, Collected.batched,
        List.filterMap_cons, same, ih]
      omega
    | prompted after prompt same =>
      simp only [List.map_cons, List.count_cons, Collected.newlyCompleted, Collected.batched,
        List.filterMap_cons, same, ih]
      omega

/-- What is left of the batch is no more than what was left of the pool. -/
theorem collected_remaining {active : List ConversationState} {collected : List Collected}
    (collects : List.Forall₂ Collects active collected) :
    (((collected.filterMap Collected.batched).map Prod.fst).map
        ConversationState.remaining).sum ≤ (active.map ConversationState.remaining).sum := by
  induction collects with
  | nil => rfl
  | @cons state entry states entries here _ ih =>
    cases here with
    | finished after => exact ih.trans (Nat.le_add_left _ _)
    | failed after => exact ih.trans (Nat.le_add_left _ _)
    | prompted after prompt same waiting later =>
      have input : after.inputConversations = state.inputConversations := congrArg Item.conversations same
      have less : after.remaining ≤ state.remaining := by
        simp only [ConversationState.remaining, input]
        omega
      simp only [Collected.batched, List.filterMap_cons, List.map_cons, List.sum_cons]
      omega

theorem collected_waiting {active : List ConversationState} {collected : List Collected}
    (collects : List.Forall₂ Collects active collected) :
    ∀ state ∈ (collected.filterMap Collected.batched).map Prod.fst, state.Waiting := by
  induction collects with
  | nil => simp
  | cons here _ ih =>
    cases here with
    | finished after => exact ih
    | failed after => exact ih
    | prompted after prompt same waiting later =>
      intro state member
      rcases List.mem_cons.mp member with rfl | rest
      · exact waiting
      · exact ih state rest

/-- A state that goes to the buffer without an error has all its replies. -/
theorem collected_replied {active : List ConversationState} {collected : List Collected}
    (collects : List.Forall₂ Collects active collected) :
    ∀ state ∈ collected.filterMap Collected.newlyCompleted, state.error = none → state.Replied := by
  induction collects with
  | nil => simp
  | cons here _ ih =>
    cases here with
    | finished after same fine replied =>
      intro state member
      rcases List.mem_cons.mp member with rfl | later
      · exact fun _ => replied
      · exact ih state later
    | failed after same wrong =>
      intro state member
      rcases List.mem_cons.mp member with rfl | later
      · intro fine
        simp [fine] at wrong
      · exact ih state later
    | prompted after prompt same waiting later => exact ih

/-- What the engine call makes of a waiting state. -/
structure Returned (before after : ConversationState) : Prop where
  same : after.item = before.item
  running : after.completed = false
  outcome : after.error = none ∧ after.Active ∧ after.currentTurn = before.currentTurn + 1 ∨
    after.error.isSome

theorem receive_returned {batch : List ConversationState} {outputs : List EngineOutput}
    (waiting : ∀ state ∈ batch, state.Waiting) (matched : outputs.length = batch.length) :
    List.Forall₂ Returned batch (receive batch outputs) := by
  induction batch generalizing outputs with
  | nil =>
    obtain rfl := List.length_eq_zero_iff.mp matched
    exact .nil
  | cons state rest ih =>
    cases outputs with
    | nil => simp at matched
    | cons output outputs =>
      have here := waiting state List.mem_cons_self
      have later := ih
        (fun other member => waiting other (List.mem_cons_of_mem _ member)) (by simpa using matched)
      cases output with
      | ok text => exact .cons ⟨rfl, here.running, .inl ⟨here.fine, here.replied text, rfl⟩⟩ later
      | error reason => exact .cons ⟨rfl, here.running, .inr rfl⟩ later

/-- An engine call returns or fails every state of the batch. -/
theorem Setup.generated_returned (setup : Setup) (round : Nat)
    {batch : List (ConversationState × String)}
    (waiting : ∀ state ∈ batch.map Prod.fst, state.Waiting) :
    List.Forall₂ Returned (batch.map Prod.fst) (setup.generated round batch) := by
  unfold generated
  cases call : setup.generate round (batch.map Prod.snd) with
  | ok outputs =>
    have matched := setup.onePerPrompt round _ outputs call
    exact receive_returned waiting (by simpa using matched)
  | error reason =>
    rw [List.forall₂_map_right_iff, List.forall₂_same]
    exact fun state member => ⟨rfl, (waiting state member).running, .inr rfl⟩

/-- The states that stay in the pool after an engine call. -/
def staying (answered : List ConversationState) : List ConversationState :=
  answered.filter (fun state => !state.completed && state.error.isNone)

/-- The states that failed in an engine call. -/
def failing (answered : List ConversationState) : List ConversationState :=
  answered.filter (fun state => state.error.isSome)

theorem returned_count {batch answered : List ConversationState}
    (returned : List.Forall₂ Returned batch answered) (item : Item) :
    (batch.map ConversationState.item).count item =
      ((staying answered).map ConversationState.item).count item +
        ((failing answered).map ConversationState.item).count item := by
  induction returned with
  | nil => rfl
  | @cons before after rest others here _ ih =>
    simp only [staying, failing] at ih ⊢
    rcases here.outcome with ⟨fine, -, -⟩ | wrong
    · simp only [List.filter_cons, here.running, fine, List.map_cons, List.count_cons,
        ih, Option.isNone_none, Option.isSome_none, Bool.not_false, Bool.and_self,
        if_true, Bool.false_eq_true, if_false, ← here.same]
      omega
    · have present : after.error.isNone = false := by simpa using wrong
      simp only [List.filter_cons, here.running, wrong, present, List.map_cons, List.count_cons,
        ih, Bool.and_false, if_true, Bool.false_eq_true, if_false, ← here.same]
      omega

theorem staying_active {batch answered : List ConversationState}
    (returned : List.Forall₂ Returned batch answered) : ∀ state ∈ staying answered, state.Active := by
  induction returned with
  | nil => simp [staying]
  | cons here _ ih =>
    intro state member
    obtain ⟨listed, kept⟩ := List.mem_filter.mp member
    rcases List.mem_cons.mp listed with rfl | later
    · rcases here.outcome with ⟨-, active, -⟩ | wrong
      · exact active
      · simp [Option.isSome_iff_ne_none.mp wrong] at kept
    · exact ih state (List.mem_filter.mpr ⟨later, kept⟩)

/-- An engine call uses up a turn of every state in the batch. -/
theorem staying_remaining {batch answered : List ConversationState}
    (waiting : ∀ state ∈ batch, state.Waiting) (returned : List.Forall₂ Returned batch answered) :
    ((staying answered).map ConversationState.remaining).sum + batch.length ≤
      (batch.map ConversationState.remaining).sum := by
  induction returned with
  | nil => rfl
  | @cons before after rest others here _ ih =>
    have later := ih
      (fun state member => waiting state (List.mem_cons_of_mem _ member))
    obtain ⟨content, said, inside, -, -⟩ := (waiting before List.mem_cons_self).asked
    have within := (List.getElem?_eq_some_iff.mp inside).1
    simp only [staying] at later ⊢
    rw [List.map_cons, List.sum_cons, List.length_cons]
    rcases here.outcome with ⟨fine, -, turn⟩ | wrong
    · have input : after.inputConversations = before.inputConversations :=
        congrArg Item.conversations here.same
      have less : after.remaining + 1 ≤ before.remaining := by
        simp only [ConversationState.remaining, input, turn]
        omega
      rw [List.filter_cons_of_pos (by simp [here.running, fine]), List.map_cons, List.sum_cons]
      omega
    · have left : 1 ≤ before.remaining := by
        simp only [ConversationState.remaining]
        omega
      rw [List.filter_cons_of_neg (by simp [here.running, Option.isSome_iff_ne_none.mp wrong])]
      omega

/-- Refilling moves a beginning of the queue into the pool, and leaves no room beside a pending
conversation. -/
theorem refill_cases (batchSize : Nat) (pending : List Item) (active : List ConversationState) :
    ∃ moved left, pending = moved ++ left ∧
      refill batchSize pending active = (left, active ++ moved.map ConversationState.ofItem) ∧
      (left ≠ [] → batchSize ≤ (active ++ moved.map ConversationState.ofItem).length) := by
  induction pending generalizing active with
  | nil => exact ⟨[], [], rfl, by simp [refill], by simp⟩
  | cons item rest ih =>
    by_cases room : active.length < batchSize
    · obtain ⟨moved, left, rfl, filled, full⟩ := ih (active ++ [.ofItem item])
      refine ⟨item :: moved, left, rfl, ?_, ?_⟩
      · rw [refill, if_pos room, filled]
        simp
      · simpa using full
    · exact ⟨[], item :: rest, rfl, by simp [refill, room], by simpa using room⟩

theorem Files.writeAll_append (files : Files) (first second : List ConversationState) :
    (files.writeAll first).writeAll second = files.writeAll (first ++ second) :=
  (List.foldl_append).symm

/-- No line written. -/
def Files.empty : Files := ⟨[], [], 0, 0⟩

/-- The line of a state without an error. -/
def ConversationState.outputLine (state : ConversationState) : OutputLine :=
  ⟨state.conversationId, state.currentMessages⟩

/-- The line of a state with an error. -/
def ConversationState.errorLine (state : ConversationState) : Option ErrorLine :=
  state.error.map (fun error =>
    ⟨state.conversationId, state.currentMessages, error, state.inputConversations⟩)

theorem Files.writeAll_eq (files : Files) (states : List ConversationState) :
    files.writeAll states =
      { out := files.out ++
          (states.filter (fun state => state.error.isNone)).map ConversationState.outputLine
        err := files.err ++ states.filterMap ConversationState.errorLine
        successCount := files.successCount + (states.filter (fun state => state.error.isNone)).length
        errorCount := files.errorCount + (states.filter (fun state => state.error.isSome)).length } := by
  induction states generalizing files with
  | nil => simp [writeAll]
  | cons state rest ih =>
    have first : files.writeAll (state :: rest) = (files.write state).writeAll rest := rfl
    rw [first, ih]
    cases error : state.error with
    | none =>
      simp [write, error, ConversationState.errorLine, ConversationState.outputLine, Nat.add_assoc,
        Nat.add_comm 1]
    | some reason =>
      simp [write, error, ConversationState.errorLine, Nat.add_assoc, Nat.add_comm 1]

/-- Every conversation that left the pool waits in the buffer or is written. -/
structure Left (run : RefillState) (written : List ConversationState) : Prop where
  files : run.files = Files.empty.writeAll written
  replied : ∀ state ∈ run.completedBuffer ++ written, state.error = none → state.Replied

/-- The invariant of the loop: every queued conversation is at one place. -/
structure Sound (queue : List Item) (run : RefillState) (written : List ConversationState) : Prop
    extends Left run written where
  conserved : ∀ item, queue.count item = run.pendingQueue.count item +
    (run.activePool.map ConversationState.item).count item +
    ((run.completedBuffer ++ written).map ConversationState.item).count item
  active : ∀ state ∈ run.activePool, state.Active
  filled : run.activePool = [] → run.pendingQueue = []

/-- A run after the loop: nothing is active any more. -/
structure Closed (queue : List Item) (run : RefillState) (written : List ConversationState) : Prop
    extends Left run written where
  conserved : ∀ item, queue.count item = run.pendingQueue.count item +
    ((run.completedBuffer ++ written).map ConversationState.item).count item

/-- Turns that are still to come. -/
def RefillState.remaining (run : RefillState) : Nat :=
  (run.pendingQueue.map (fun item => item.conversations.length + 1)).sum +
    (run.activePool.map ConversationState.remaining).sum

namespace Setup

variable (setup : Setup)

theorem start_remaining (queue : List Item) : (setup.start queue).remaining =
    (queue.map (fun item => item.conversations.length + 1)).sum := by
  obtain ⟨moved, left, rfl, filled, -⟩ := refill_cases setup.batchSize queue []
  simp only [start, filled, RefillState.remaining, List.nil_append, List.map_append,
    List.sum_append, List.map_map]
  rw [Nat.add_comm]
  rfl

theorem items_ofItem (items : List Item) :
    (items.map ConversationState.ofItem).map ConversationState.item = items := by
  rw [List.map_map]
  exact List.map_id items

theorem start_sound (queue : List Item) : Sound queue (setup.start queue) [] := by
  obtain ⟨moved, left, rfl, filled, full⟩ := refill_cases setup.batchSize queue []
  have states : (setup.start (moved ++ left)) =
      ⟨left, moved.map ConversationState.ofItem, [], Files.empty, 0⟩ := by
    simp [start, filled, Files.empty]
  rw [states]
  constructor
  · exact ⟨rfl, by simp⟩
  · intro item
    simp only [List.count_append, items_ofItem, List.nil_append, List.map_nil, List.count_nil]
    omega
  · intro state member
    obtain ⟨item, -, rfl⟩ := List.mem_map.mp member
    exact ConversationState.active_ofItem item
  · intro empty
    by_contra pending
    have room := full pending
    have none : moved = [] := by simpa using empty
    exact absurd setup.batchSize_pos (by simpa [none] using room)

theorem checkpoint_cases (run : RefillState) :
    setup.checkpoint run = run ∨ setup.checkpoint run =
      { run with files := run.files.writeAll run.completedBuffer, completedBuffer := [] } := by
  unfold checkpoint
  split_ifs
  · exact .inr rfl
  · exact .inl rfl

theorem checkpoint_sound {queue : List Item} {run : RefillState}
    {written : List ConversationState} (sound : Sound queue run written) :
    ∃ written, Sound queue (setup.checkpoint run) written ∧
      (setup.checkpoint run).remaining = run.remaining := by
  rcases setup.checkpoint_cases run with same | flushed
  · exact ⟨written, by rw [same]; exact sound, by rw [same]⟩
  · refine ⟨written ++ run.completedBuffer, ?_, by rw [flushed]; rfl⟩
    rw [flushed]
    constructor
    · constructor
      · simp only [sound.files, Files.writeAll_append]
      · intro state member
        exact sound.replied state (by simpa [or_comm] using member)
    · intro item
      have conserved := sound.conserved item
      simp only [List.map_append, List.count_append, List.nil_append] at conserved ⊢
      omega
    · exact sound.active
    · exact sound.filled

/-- The loop variables after collecting. -/
def gathered (run : RefillState) : RefillState :=
  { run with
    roundNum := run.roundNum + 1
    completedBuffer := run.completedBuffer ++
      (setup.collectAll (run.roundNum + 1) run.activePool).filterMap Collected.newlyCompleted }

/-- The batch of a round. -/
def batch (run : RefillState) : List (ConversationState × String) :=
  (setup.collectAll (run.roundNum + 1) run.activePool).filterMap Collected.batched

theorem collects {queue : List Item} {run : RefillState} {written : List ConversationState}
    (sound : Sound queue run written) :
    List.Forall₂ Collects run.activePool (setup.collectAll (run.roundNum + 1) run.activePool) :=
  collected_forall₂ _ (fun position state member =>
    setup.collect_collects (run.roundNum + 1) position (sound.active state member))

/-- Collecting leaves in the buffer only failures and conversations with all their replies. -/
theorem gathered_left {queue : List Item} {run : RefillState} {written : List ConversationState}
    (sound : Sound queue run written) : Left (setup.gathered run) written where
  files := sound.files
  replied := by
    intro state member
    rcases List.mem_append.mp member with buffered | before
    · rcases List.mem_append.mp buffered with earlier | newly
      · exact sound.replied state (List.mem_append_left _ earlier)
      · exact collected_replied (setup.collects sound) state newly
    · exact sound.replied state (List.mem_append_right _ before)

/-- After collecting, every queued conversation is pending, in the batch, in the buffer or
written. -/
theorem gathered_count {queue : List Item} {run : RefillState} {written : List ConversationState}
    (sound : Sound queue run written) (item : Item) :
    queue.count item = run.pendingQueue.count item +
      (((setup.batch run).map Prod.fst).map ConversationState.item).count item +
      (((setup.gathered run).completedBuffer ++ written).map ConversationState.item).count item := by
  have conserved := sound.conserved item
  have counted := collected_count (setup.collects sound) item
  simp only [gathered, batch, List.map_append, List.count_append] at conserved counted ⊢
  omega

/-- A round without a prompt ends the loop with the pending queue it found. -/
theorem round_exit {queue : List Item} {run : RefillState} {written : List ConversationState}
    (sound : Sound queue run written) (empty : setup.batch run = []) :
    setup.round run = .exit (setup.gathered run) ∧ Closed queue (setup.gathered run) written := by
  constructor
  · have exits : (setup.batch run).isEmpty = true := by simp [empty]
    exact if_pos exits
  · constructor
    · exact setup.gathered_left sound
    · intro item
      have counted := setup.gathered_count sound item
      have pending : (setup.gathered run).pendingQueue = run.pendingQueue := rfl
      rw [empty] at counted
      simpa [pending] using counted

/-- A round with a prompt keeps the invariant and uses up turns. -/
theorem round_next {queue : List Item} {run : RefillState} {written : List ConversationState}
    (sound : Sound queue run written) (prompts : setup.batch run ≠ []) :
    ∃ following written, setup.round run = .next following ∧ Sound queue following written ∧
      following.remaining < run.remaining := by
  have waiting := collected_waiting (setup.collects sound)
  have fewer := collected_remaining (setup.collects sound)
  have some : 0 < (setup.batch run).length := List.length_pos_iff.mpr prompts
  obtain ⟨moved, left, queued, refilled, full⟩ := refill_cases setup.batchSize run.pendingQueue
    (staying (setup.generated (run.roundNum + 1) (setup.batch run)))
  generalize answered : setup.generated (run.roundNum + 1) (setup.batch run) = states
    at refilled full
  have returned : List.Forall₂ Returned ((setup.batch run).map Prod.fst) states :=
    answered ▸ setup.generated_returned (run.roundNum + 1) waiting
  have used := staying_remaining waiting returned
  have settled : Sound queue
      { setup.gathered run with
        pendingQueue := left
        activePool := staying states ++ moved.map ConversationState.ofItem
        completedBuffer := (setup.gathered run).completedBuffer ++ failing states } written := by
    constructor
    · constructor
      · exact sound.files
      · intro state member fine
        have before := (setup.gathered_left sound).replied state
        rcases List.mem_append.mp member with buffered | earlier
        · rcases List.mem_append.mp buffered with gathered | failed
          · exact before (List.mem_append_left _ gathered) fine
          · simp [failing, fine] at failed
        · exact before (List.mem_append_right _ earlier) fine
    · intro item
      have counted := setup.gathered_count sound item
      have call := returned_count returned item
      rw [queued] at counted
      simp only [List.map_append, List.count_append, items_ofItem] at counted call ⊢
      omega
    · intro state member
      rcases List.mem_append.mp member with stays | moves
      · exact staying_active returned state stays
      · obtain ⟨item, -, rfl⟩ := List.mem_map.mp moves
        exact ConversationState.active_ofItem item
    · intro empty
      by_contra pending
      have room := full pending
      have none : staying states ++ moved.map ConversationState.ofItem = [] := empty
      rw [none] at room
      exact absurd setup.batchSize_pos (by simpa using room)
  obtain ⟨written, kept, same⟩ := setup.checkpoint_sound settled
  refine ⟨_, written, ?_, kept, ?_⟩
  · have goes : (setup.batch run).isEmpty = false := by simpa using prompts
    have ends : setup.round run = .next (setup.settle (setup.gathered run)
        (setup.generated (run.roundNum + 1) (setup.batch run))) := by
      have unfolded : setup.round run = if (setup.batch run).isEmpty then .exit (setup.gathered run)
          else .next (setup.settle (setup.gathered run)
            (setup.generated (run.roundNum + 1) (setup.batch run))) := rfl
      rw [unfolded, goes]
      rfl
    rw [ends, answered]
    have refills : refill setup.batchSize (setup.gathered run).pendingQueue
        (states.filter (fun state => !state.completed && state.error.isNone)) =
        (left, staying states ++ moved.map ConversationState.ofItem) := refilled
    simp only [settle, refills]
    rfl
  · rw [same]
    simp only [RefillState.remaining, List.map_append, List.sum_append, List.map_map, queued]
      at fewer used ⊢
    have fresh : (moved.map (ConversationState.remaining ∘ ConversationState.ofItem)).sum =
        (moved.map (fun item => item.conversations.length + 1)).sum := rfl
    simp only [batch] at used some
    simp only [List.length_map] at used
    omega

/-- A round that the loop goes on from. -/
def Next (run following : RefillState) : Prop :=
  run.activePool ≠ [] ∧ setup.round run = .next following

/-- The round starting in this state has a prompt: some active conversation has a next user turn,
and its prompt is built. -/
def Prompts (run : RefillState) : Prop :=
  ∃ position state content prompt, run.activePool[position]? = some state ∧
    state.getNextUserTurn.1 = some content ∧
    setup.buildPrompt (run.roundNum + 1) position (setup.promptMessages state content) = .ok prompt

theorem prompts_iff (run : RefillState) : setup.Prompts run ↔ setup.batch run ≠ [] := by
  have batched (position : Nat) (state : ConversationState) :
      (setup.collect (run.roundNum + 1) position state).batched.isSome ↔
        ∃ content prompt, state.getNextUserTurn.1 = some content ∧
          setup.buildPrompt (run.roundNum + 1) position (setup.promptMessages state content) =
            .ok prompt := by
    have same (content : String) : setup.promptMessages state.getNextUserTurn.2 content =
        setup.promptMessages state content := rfl
    cases next : state.getNextUserTurn.1 with
    | none => simp [collect, next, Collected.batched]
    | some content =>
      cases built : setup.buildPrompt (run.roundNum + 1) position
          (setup.promptMessages state content) with
      | ok prompt => simp [collect, next, same, built, Collected.batched]
      | error reason => simp [collect, next, same, built, Collected.batched]
  constructor
  · rintro ⟨position, state, content, prompt, listed, next, built⟩
    intro empty
    have here : setup.collect (run.roundNum + 1) position state ∈
        setup.collectAll (run.roundNum + 1) run.activePool := by
      apply List.mem_of_getElem? (i := position)
      simp [collectAll, List.getElem?_mapIdx, listed]
    have none := List.filterMap_eq_nil_iff.mp empty _ here
    have some := (batched position state).mpr ⟨content, prompt, next, built⟩
    simp [none] at some
  · intro nonempty
    obtain ⟨entry, member⟩ := List.exists_mem_of_ne_nil _ nonempty
    obtain ⟨collected, listed, asked⟩ := List.mem_filterMap.mp member
    obtain ⟨position, atPosition⟩ := List.getElem?_of_mem listed
    simp only [collectAll, List.getElem?_mapIdx, Option.map_eq_some_iff] at atPosition
    obtain ⟨state, active, rfl⟩ := atPosition
    obtain ⟨content, prompt, next, built⟩ := (batched position state).mp (by rw [asked]; rfl)
    exact ⟨position, state, content, prompt, active, next, built⟩

/-- Every round reached while conversations are pending has a prompt. -/
def NeverIdle (run : RefillState) : Prop :=
  ∀ reached, Relation.ReflTransGen setup.Next run reached → reached.pendingQueue ≠ [] →
    setup.Prompts reached

theorem neverIdle_last {run : RefillState} (last : ∀ following, ¬ setup.Next run following) :
    setup.NeverIdle run ↔ (run.pendingQueue ≠ [] → setup.Prompts run) := by
  constructor
  · intro never
    exact never run .refl
  · intro here reached path
    rcases Relation.ReflTransGen.cases_head path with rfl | ⟨following, taken, -⟩
    · exact here
    · exact absurd taken (last following)

/-- A run that goes on with a prompt is judged by what follows. -/
theorem neverIdle_next {run following : RefillState} (taken : setup.Next run following)
    (prompts : setup.Prompts run) : setup.NeverIdle run ↔ setup.NeverIdle following := by
  constructor
  · intro never reached path
    exact never reached (Relation.ReflTransGen.head taken path)
  · intro never reached path pending
    rcases Relation.ReflTransGen.cases_head path with rfl | ⟨other, other_taken, rest⟩
    · exact prompts
    · have same : following = other := by
        have both := taken.2.symm.trans other_taken.2
        injection both
      exact never reached (same ▸ rest) pending

theorem ends_empty {queue : List Item} {run : RefillState} {written : List ConversationState}
    (sound : Sound queue run written) (empty : run.activePool = []) :
    (∀ fuel > 0, setup.loop fuel run = some run) ∧ Closed queue run written ∧
      (run.pendingQueue = [] ↔ setup.NeverIdle run) := by
  have none : run.pendingQueue = [] := sound.filled empty
  refine ⟨?_, ⟨sound.toLeft, ?_⟩, ?_⟩
  · intro fuel positive
    obtain ⟨less, rfl⟩ : ∃ less, fuel = less + 1 := ⟨fuel - 1, by omega⟩
    simp [loop, empty]
  · intro item
    simpa [empty] using sound.conserved item
  · rw [setup.neverIdle_last (fun following taken => taken.1 empty)]
    simp [none]

/-- A run without a prompt ends with the pending queue it has. -/
theorem ends_idle {queue : List Item} {run : RefillState} {written : List ConversationState}
    (sound : Sound queue run written) (active : run.activePool ≠ []) (idle : setup.batch run = []) :
    (∀ fuel > 0, setup.loop fuel run = some (setup.gathered run)) ∧
      Closed queue (setup.gathered run) written ∧
      ((setup.gathered run).pendingQueue = [] ↔ setup.NeverIdle run) := by
  obtain ⟨exits, closed⟩ := setup.round_exit sound idle
  refine ⟨?_, closed, ?_⟩
  · intro fuel positive
    obtain ⟨less, rfl⟩ : ∃ less, fuel = less + 1 := ⟨fuel - 1, by omega⟩
    simp [loop, active, exits]
  · have stays : ∀ following, ¬ setup.Next run following := by
      intro following taken
      rw [Next, exits] at taken
      exact absurd taken.2 (by simp)
    have pending : (setup.gathered run).pendingQueue = run.pendingQueue := rfl
    rw [pending, setup.neverIdle_last stays, setup.prompts_iff]
    simp [idle]

/-- The loop ends with every conversation accounted for, and with an empty queue exactly when no
round reached was idle. -/
theorem loop_ends (turns : Nat) {queue : List Item} {run : RefillState}
    {written : List ConversationState} (sound : Sound queue run written)
    (bound : run.remaining ≤ turns) :
    ∃ final written, (∀ fuel > turns, setup.loop fuel run = some final) ∧
      Closed queue final written ∧ (final.pendingQueue = [] ↔ setup.NeverIdle run) := by
  induction turns using Nat.strong_induction_on generalizing run written with
  | _ turns ih =>
    by_cases empty : run.activePool = []
    · obtain ⟨ended, closed, verdict⟩ := setup.ends_empty sound empty
      exact ⟨run, written, fun fuel enough => ended fuel (by omega), closed, verdict⟩
    · by_cases idle : setup.batch run = []
      · obtain ⟨ended, closed, verdict⟩ := setup.ends_idle sound empty idle
        exact ⟨_, written, fun fuel enough => ended fuel (by omega), closed, verdict⟩
      · obtain ⟨following, after, taken, kept, fewer⟩ := setup.round_next sound idle
        obtain ⟨final, written, ended, closed, verdict⟩ :=
          ih (turns - 1) (by omega) kept (by omega)
        refine ⟨final, written, ?_, closed, ?_⟩
        · intro fuel enough
          obtain ⟨less, rfl⟩ : ∃ less, fuel = less + 1 := ⟨fuel - 1, by omega⟩
          have rest := ended less (by omega)
          simpa [loop, empty, taken] using rest
        · rw [verdict, setup.neverIdle_next ⟨empty, taken⟩ ((setup.prompts_iff run).mpr idle)]

end Setup

/-- No conversation is lost: the queue is empty, and each conversation is on one line, on an error
line exactly when it met an error. A conversation without an error has one reply after each of its
user turns. -/
structure Complete (queue pending : List Item) (files : Files) : Prop where
  emptied : pending = []
  written : ∃ states : List ConversationState,
    (states.map ConversationState.item).Perm queue ∧
    files.out = (states.filter (fun state => state.error.isNone)).map ConversationState.outputLine ∧
    files.err = states.filterMap ConversationState.errorLine ∧
    ∀ state ∈ states, state.error = none → state.Replied
  counted : files.successCount + files.errorCount = queue.length

theorem length_split (states : List ConversationState) :
    (states.filter (fun state => state.error.isNone)).length +
      (states.filter (fun state => state.error.isSome)).length = states.length := by
  induction states with
  | nil => rfl
  | cons state rest ih =>
    cases error : state.error with
    | none =>
      simp only [List.filter_cons, error, Option.isNone_none, Option.isSome_none, if_true,
        Bool.false_eq_true, if_false, List.length_cons]
      omega
    | some reason =>
      simp only [List.filter_cons, error, Option.isNone_some, Option.isSome_some, if_true,
        Bool.false_eq_true, if_false, List.length_cons]
      omega

/-- What a run leaves behind is complete when its queue is empty. -/
theorem Closed.complete {queue : List Item} {run : RefillState}
    {written : List ConversationState} (closed : Closed queue run written)
    (emptied : run.pendingQueue = []) :
    Complete queue run.pendingQueue (run.files.writeAll run.completedBuffer) := by
  have files : run.files.writeAll run.completedBuffer =
      Files.empty.writeAll (written ++ run.completedBuffer) := by
    rw [closed.files, Files.writeAll_append]
  have whole : ((written ++ run.completedBuffer).map ConversationState.item).Perm queue := by
    rw [List.perm_iff_count]
    intro item
    have conserved := closed.conserved item
    rw [emptied] at conserved
    simp only [List.map_append, List.count_append, List.count_nil] at conserved ⊢
    omega
  rw [files, Files.writeAll_eq]
  constructor
  · exact emptied
  · refine ⟨written ++ run.completedBuffer, whole, rfl, rfl, ?_⟩
    intro state member
    exact closed.replied state (by simpa [or_comm] using member)
  · have lengths := whole.length_eq
    have split := length_split (written ++ run.completedBuffer)
    rw [List.length_map] at lengths
    simp only [Files.empty, Nat.zero_add]
    omega

/-- The turns of a queue, each conversation's end included. -/
def queueTurns (queue : List Item) : Nat :=
  (queue.map (fun item => item.conversations.length + 1)).sum

/-- The generator returns, and it loses no conversation exactly when every round begun with pending
conversations has a prompt to send. -/
theorem process_complete_iff (setup : Setup) (queue : List Item) :
    ∃ pending files,
      (∀ fuel > queueTurns queue, setup.process fuel queue = some (pending, files)) ∧
      (Complete queue pending files ↔ setup.NeverIdle (setup.start queue)) := by
  obtain ⟨final, written, ended, closed, verdict⟩ := setup.loop_ends (queueTurns queue)
    (setup.start_sound queue) (setup.start_remaining queue).le
  refine ⟨_, _, fun fuel enough => by rw [Setup.process, ended fuel enough]; rfl, ?_⟩
  rw [← verdict]
  exact ⟨fun complete => complete.emptied, closed.complete⟩

/-- A pool of one, an engine that always replies and prompts that are always built. -/
def oneAtATime : Setup where
  batchSize := 1
  checkpointInterval := 1
  systemPrompt := ""
  buildPrompt := fun _ _ _ => .ok "USER: question ASSISTANT:"
  generate := fun _ prompts => .ok (.list (prompts.map (fun _ => .ok "answer")))
  batchSize_pos := Nat.one_pos
  checkpointInterval_pos := Nat.one_pos
  onePerPrompt := by
    intro round prompts outputs returned
    cases returned
    simp [EngineOutputs.toList]

/-- Two conversations with one user turn each. -/
def twoConversations : List Item :=
  [⟨"first", [⟨.user, "question"⟩]⟩, ⟨"second", [⟨.user, "question"⟩]⟩]

/-- The round that finds the first conversation finished has no prompt, and the loop ends with the
second one pending. -/
theorem second_conversation_lost : ¬ ∃ pending files,
    (∀ fuel > queueTurns twoConversations,
      oneAtATime.process fuel twoConversations = some (pending, files)) ∧
    Complete twoConversations pending files := by
  rintro ⟨pending, files, ended, complete⟩
  have returned := ended 5 (by decide)
  have lost : (oneAtATime.process 5 twoConversations).map Prod.fst =
      some [⟨"second", [⟨.user, "question"⟩]⟩] := by decide +kernel
  rw [returned, complete.emptied] at lost
  cases lost

end SpecBlock.Conversations
