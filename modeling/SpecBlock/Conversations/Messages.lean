import Mathlib.Algebra.Ring.Nat
import Mathlib.Algebra.BigOperators.Group.List.Basic

/-!
# Messages of a conversation

A conversation is a list of messages, each with a role and a text. The benchmark and the
training-data generator both read such lists and extend them turn by turn: a user message, then
the reply of the assistant.
-/

namespace SpecBlock.Conversations

/-- Who speaks. Data files may name further roles. -/
inductive Role where
  | system
  | user
  | assistant
  | other (name : String)
deriving DecidableEq, Repr

/-- One message. -/
structure Message where
  role : Role
  content : String
deriving DecidableEq, Repr

/-- Messages in order. -/
abbrev Conversation := List Message

/-- A user message followed by its reply. -/
def exchange (turn : String × String) : Conversation :=
  [⟨.user, turn.1⟩, ⟨.assistant, turn.2⟩]

/-- Turns and their replies as messages in order. -/
def dialogue (turns replies : List String) : Conversation :=
  (turns.zip replies).flatMap exchange

@[simp] theorem dialogue_nil (replies : List String) : dialogue [] replies = [] := rfl

@[simp] theorem dialogue_cons (turn reply : String) (turns replies : List String) :
    dialogue (turn :: turns) (reply :: replies) =
      ⟨.user, turn⟩ :: ⟨.assistant, reply⟩ :: dialogue turns replies := rfl

theorem dialogue_append (turns replies : List String) (turn reply : String)
    (matched : replies.length = turns.length) :
    dialogue (turns ++ [turn]) (replies ++ [reply]) =
      dialogue turns replies ++ [⟨.user, turn⟩, ⟨.assistant, reply⟩] := by
  rw [dialogue, List.zip_append matched.symm, List.flatMap_append]
  rfl

theorem dialogue_take_succ (turns replies : List String) (k : Nat) (turn reply : String)
    (asked : turns[k]? = some turn) (replied : replies[k]? = some reply) :
    dialogue (turns.take (k + 1)) replies =
      dialogue (turns.take k) replies ++ [⟨.user, turn⟩, ⟨.assistant, reply⟩] := by
  induction k generalizing turns replies with
  | zero =>
    cases turns with
    | nil => simp at asked
    | cons first rest =>
      cases replies with
      | nil => simp at replied
      | cons answer answers => simp_all
  | succ k ih =>
    cases turns with
    | nil => simp at asked
    | cons first rest =>
      cases replies with
      | nil => simp at replied
      | cons answer answers =>
        have later := ih rest answers (by simpa using asked) (by simpa using replied)
        rw [List.take_succ_cons, dialogue_cons, later, List.take_succ_cons, dialogue_cons]
        rfl

/-- `prepare_conversation`: the system prompt comes first when the conversation has none. -/
def prepareConversation (systemPrompt : String) (conversation : Conversation) : Conversation :=
  match conversation with
  | ⟨.system, content⟩ :: rest => ⟨.system, content⟩ :: rest
  | conversation => ⟨.system, systemPrompt⟩ :: conversation

end SpecBlock.Conversations
