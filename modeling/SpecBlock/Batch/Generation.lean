import Mathlib.Data.List.Sort
import SpecBlock.Foundation.Autoregressive
import SpecBlock.Batch.Verification

/-!
# The request-batched decode loop

`generate_conversations` prefills every prompt, drafts a tree per unfinished
request, and then repeats one round: verify all active trees in a single target
pass, commit to each request its accepted path and the next token, cut at the
first stop token or at the token limit, and draft again for the survivors.

Request objects live in one list; `active` lists the positions of the ones still
decoding, in batch order. Drafting and the target are arbitrary functions of the
round and of the states they are called with.
-/

namespace SpecBlock.Batch

open Autoregressive Rows

variable {H : Type}

/-- `_RequestState`, without draft caches and statistics. -/
structure RequestState where
  promptIds : List Nat
  outputTokens : List Nat
  currentToken : Option Nat
  targetPrefixLen : Nat
  tree : Option Tree
  iterations : Nat
  acceptLengthsRaw : List Nat
  finished : Bool

/-- Limits and token numbers fixed for one call. -/
structure Settings where
  maxNewTokens : Nat
  eosIds : List Nat
  padTokenId : Nat
  vocabSize : Nat
  acceptTopk : Nat

/-- Membership in the collected end-of-sequence ids. -/
def Settings.isEos (settings : Settings) (token : Nat) : Bool := settings.eosIds.contains token

/-- `values[:stop]`, with a negative stop counted from the end. -/
def sliceUpTo (values : List Nat) (stop : Int) : List Nat :=
  if 0 ≤ stop then values.take stop.toNat else values.take (values.length - (-stop).toNat)

/-- Copy tokens up to and including the first stop token. -/
def takeUntilEos (isEos : Nat → Bool) : List Nat → List Nat
  | [] => []
  | token :: rest => if isEos token then [token] else token :: takeUntilEos isEos rest

/-- Commit one request's decision to its output. -/
def commitRequest (settings : Settings) (state : RequestState) (accepted : Accepted H) :
    RequestState :=
  let remaining : Int := settings.maxNewTokens - state.outputTokens.length
  let taken := takeUntilEos settings.isEos (sliceUpTo accepted.proposed remaining)
  let outputTokens := state.outputTokens ++ taken
  let finished := decide (settings.maxNewTokens ≤ outputTokens.length) ||
    taken.getLast?.any settings.isEos || decide (taken.length < accepted.proposed.length)
  { state with
    outputTokens := outputTokens
    acceptLengthsRaw := state.acceptLengthsRaw ++ [min accepted.acceptLength taken.length]
    iterations := state.iterations + 1
    finished := finished
    tree := if finished then none else state.tree
    currentToken := if finished then none else state.currentToken
    targetPrefixLen :=
      if finished then state.targetPrefixLen
      else state.targetPrefixLen + accepted.selectedPathIndices.length }

/-- The drafter: a tree for a request whose current token is set. -/
abbrev Draft := Nat → Nat → RequestState → Tree

/-- Draft a surviving request's next tree from its next token. -/
def draftNext (draft : Draft) (round request : Nat) (nextToken : Nat) (state : RequestState) :
    RequestState :=
  let state := { state with currentToken := some nextToken }
  { state with tree := some (draft round request state) }

/-- One request's share of a round: commit, then draft again unless finished. -/
def advance (settings : Settings) (draft : Draft) (round request : Nat) (accepted : Accepted H)
    (state : RequestState) : RequestState :=
  let committed := commitRequest settings state accepted
  if committed.finished then committed
  else draftNext draft round request accepted.nextToken committed

/-- Tree and logical prefix length staged for a request. -/
def staged (state : RequestState) : Option (Tree × Nat) :=
  state.tree.map (fun tree => (tree, state.targetPrefixLen))

/-- Target passes of one call: the prefill and every verification. -/
structure Target (H : Type) where
  prefill : List (List Nat) → Nat → Nat
  verify : Nat → List RequestState → Forward H

/-- Requests of the active list that are not finished, in batch order. -/
def survivors (states : List RequestState) (active : List Nat) : List Nat :=
  active.filter (fun request => states[request]?.any (fun state => !state.finished))

/-- One round of the decode loop. -/
def decodeRound (settings : Settings) (target : Target H) (draft : Draft) (round : Nat)
    (states : List RequestState) (active : List Nat) :
    Except String (List RequestState × List Nat) := do
  let current := gather active states
  let accepted ← verifyGreedy settings.acceptTopk settings.vocabSize settings.padTokenId
    (current.filterMap staged) (target.verify round current)
  let updates := (active.zip accepted).map (fun row =>
    advance settings draft (round + 1) row.1 row.2)
  let states := scatter active updates states
  return (states, survivors states active)

/-- The loop runs while a request is active. The first argument bounds the
number of rounds; running out of it is an error of the model only. -/
def decodeLoop (settings : Settings) (target : Target H) (draft : Draft) :
    Nat → Nat → List RequestState → List Nat → Except String (List RequestState)
  | _, _, states, [] => .ok states
  | 0, _, _, _ :: _ => .error "round bound exceeded"
  | fuel + 1, round, states, active@(_ :: _) => do
      let (states, active) ← decodeRound settings target draft round states active
      decodeLoop settings target draft fuel (round + 1) states active

/-- A prefilled request: its first token is already output. -/
def prefilled (settings : Settings) (prompt : List Nat) (firstToken : Nat) : RequestState :=
  { promptIds := prompt
    outputTokens := [firstToken]
    currentToken := some firstToken
    targetPrefixLen := prompt.length
    tree := none
    iterations := 0
    acceptLengthsRaw := []
    finished := settings.isEos firstToken || settings.maxNewTokens == 1 }

/-- Draft-cache chunks needed for a prompt. -/
def chunkCount (states : List RequestState) (request : Nat) : Nat :=
  ((states[request]?.elim 0 (fun state => state.promptIds.length)) + 64) / 64

/-- Unfinished requests, stably reordered by decreasing chunk count when out of order. -/
def initialEntries (states : List RequestState) : List Nat :=
  let entries := survivors states (List.range states.length)
  let chunks := entries.map (chunkCount states)
  if (chunks.zip chunks.tail).any (fun pair => pair.1 < pair.2) then
    entries.mergeSort (fun left right => chunkCount states right ≤ chunkCount states left)
  else entries

/-- Prefill every prompt and draft the first trees. -/
def prefill (settings : Settings) (target : Target H) (draft : Draft) (prompts : List (List Nat)) :
    List RequestState × List Nat :=
  let states := prompts.mapIdx (fun request prompt =>
    prefilled settings prompt (target.prefill prompts request))
  let active := initialEntries states
  let drafted := active.map (fun request (state : RequestState) =>
    { state with tree := some (draft 0 request state) })
  (scatter active drafted states, active)

/-- `generate_conversations` with temperature zero: the output tokens per prompt. -/
def generateConversations (settings : Settings) (target : Target H) (draft : Draft) (fuel : Nat)
    (prompts : List (List Nat)) : Except String (List (List Nat)) :=
  if settings.maxNewTokens = 0 then .ok (prompts.map (fun _ => []))
  else do
    let (states, active) := prefill settings target draft prompts
    let states ← decodeLoop settings target draft fuel 0 states active
    return states.map RequestState.outputTokens

/-- The initial entries are the unfinished requests, each once. -/
theorem initialEntries_perm (states : List RequestState) :
    (initialEntries states).Perm (survivors states (List.range states.length)) := by
  simp only [initialEntries]
  split
  · exact List.mergeSort_perm _ _
  · exact List.Perm.refl _

/-- After the prefill the unfinished requests are active, each once and with a
tree; every other request is finished by its first token. -/
theorem prefill_rows (settings : Settings) (target : Target H) (draft : Draft)
    (prompts : List (List Nat)) :
    (prefill settings target draft prompts).1.length = prompts.length ∧
      (prefill settings target draft prompts).2.Nodup ∧
      (∀ request ∈ (prefill settings target draft prompts).2, ∃ prompt,
        prompts[request]? = some prompt ∧
        (prefilled settings prompt (target.prefill prompts request)).finished = false ∧
        (prefill settings target draft prompts).1[request]? =
          some { prefilled settings prompt (target.prefill prompts request) with
            tree := some (draft 0 request
              (prefilled settings prompt (target.prefill prompts request))) }) ∧
      ∀ request prompt, request ∉ (prefill settings target draft prompts).2 →
        prompts[request]? = some prompt →
        (prefilled settings prompt (target.prefill prompts request)).finished = true ∧
        (prefill settings target draft prompts).1[request]? =
          some (prefilled settings prompt (target.prefill prompts request)) := by
  generalize prefilledStates : prompts.mapIdx (fun request prompt =>
    prefilled settings prompt (target.prefill prompts request)) = states
  have lengths : states.length = prompts.length := by
    rw [← prefilledStates, List.length_mapIdx]
  have read : ∀ request prompt, prompts[request]? = some prompt →
      states[request]? = some (prefilled settings prompt (target.prefill prompts request)) := by
    intro request prompt atPrompt
    simp [← prefilledStates, atPrompt]
  have distinct : (initialEntries states).Nodup :=
    (initialEntries_perm states).nodup_iff.mpr (List.nodup_range.filter _)
  have entered : ∀ request prompt, prompts[request]? = some prompt →
      (request ∈ initialEntries states ↔
        (prefilled settings prompt (target.prefill prompts request)).finished = false) := by
    intro request prompt atPrompt
    have bound : request < states.length :=
      lengths ▸ (List.getElem?_eq_some_iff.mp atPrompt).1
    rw [(initialEntries_perm states).mem_iff, survivors, List.mem_filter,
      read request prompt atPrompt]
    simp [bound]
  simp only [prefill, prefilledStates]
  refine ⟨by rw [scatter_length, lengths], distinct, ?_, ?_⟩
  · intro request member
    have bound : request < prompts.length := by
      have inRange := (initialEntries_perm states).mem_iff.mp member
      simpa [survivors, lengths] using (List.mem_filter.mp inRange).1
    have atPrompt := List.getElem?_eq_getElem bound
    have unfinished := (entered request _ atPrompt).mp member
    obtain ⟨row, listed⟩ := List.getElem?_of_mem member
    refine ⟨prompts[request], atPrompt, unfinished, ?_⟩
    rw [scatter_getElem? _ _ states distinct row request _ listed (by
      rw [List.getElem?_map, listed]
      rfl), read request _ atPrompt]
    rfl
  · intro request prompt absent atPrompt
    rw [scatter_frame _ _ states request absent]
    refine ⟨?_, read request prompt atPrompt⟩
    by_contra unfinished
    exact absent ((entered request prompt atPrompt).mpr (by simpa using unfinished))

/-- The assumption on the target: the prefill and every staged node return the
greedy next token of the sequence they stand for. -/
structure Target.Faithful (target : Target H) (next : List Nat → Nat) : Prop where
  prefill : ∀ prompts request prompt, prompts[request]? = some prompt →
    target.prefill prompts request = next prompt
  verify : ∀ round active row state tree node path,
    active[row]? = some state → state.tree = some tree → tree.rootPath node = some path →
    (target.verify round active).argmax row node =
      next (state.promptIds ++ state.outputTokens.dropLast ++ tree.tokensAt path)

/-- The assumption on the drafter: trees are well formed and rooted at the
current token. -/
def Draft.WellFormed (draft : Draft) : Prop :=
  ∀ round request state current, state.currentToken = some current →
    (draft round request state).WellFormed current

/-- A nonempty list is copied up to a last token; nothing before it stops, and
it stops unless the list ends there. -/
theorem takeUntilEos_split (isEos : Nat → Bool) (tokens : List Nat) (nonempty : tokens ≠ []) :
    ∃ front last rest, takeUntilEos isEos tokens = front ++ [last] ∧
      tokens = front ++ [last] ++ rest ∧ (∀ token ∈ front, isEos token = false) ∧
      (rest = [] ∨ isEos last = true) := by
  induction tokens with
  | nil => exact absurd rfl nonempty
  | cons token rest ih =>
    by_cases stopped : isEos token = true
    · exact ⟨[], token, rest, by simp [takeUntilEos, stopped], rfl, by simp, .inr stopped⟩
    · cases rest with
      | nil => exact ⟨[], token, [], by simp [takeUntilEos, stopped], rfl, by simp, .inl rfl⟩
      | cons following tail =>
        obtain ⟨front, last, remainder, copied, whole, running, ended⟩ :=
          ih (List.cons_ne_nil _ _)
        refine ⟨token :: front, last, remainder, ?_, ?_, ?_, ended⟩
        · rw [takeUntilEos, if_neg stopped, copied, List.cons_append]
        · rw [whole]
          simp
        · intro other member
          rcases List.mem_cons.mp member with rfl | member
          · simpa using stopped
          · exact running other member

theorem takeUntilEos_isPrefix (isEos : Nat → Bool) (tokens : List Nat) :
    takeUntilEos isEos tokens <+: tokens := by
  induction tokens with
  | nil => exact List.prefix_refl []
  | cons token rest ih =>
    unfold takeUntilEos
    split
    · exact ⟨rest, rfl⟩
    · exact (List.prefix_cons_inj token).mpr ih

theorem sliceUpTo_isPrefix (values : List Nat) (stop : Int) : sliceUpTo values stop <+: values := by
  unfold sliceUpTo
  split <;> exact List.take_prefix _ _

/-- A request that goes on has committed everything proposed and its whole path. -/
theorem commitRequest_unfinished (settings : Settings) (state : RequestState)
    (accepted : Accepted H) (unfinished : (commitRequest settings state accepted).finished = false) :
    (commitRequest settings state accepted).outputTokens =
        state.outputTokens ++ accepted.proposed ∧
      (commitRequest settings state accepted).targetPrefixLen =
        state.targetPrefixLen + accepted.selectedPathIndices.length := by
  have all : takeUntilEos settings.isEos (sliceUpTo accepted.proposed
      ((settings.maxNewTokens : Int) - state.outputTokens.length)) = accepted.proposed := by
    have copied := (takeUntilEos_isPrefix settings.isEos _).trans (sliceUpTo_isPrefix accepted.proposed
      ((settings.maxNewTokens : Int) - state.outputTokens.length))
    refine copied.eq_of_length_le ?_
    simp only [commitRequest, Bool.or_eq_false_iff, decide_eq_false_iff_not, Nat.not_lt] at unfinished
    exact unfinished.2
  refine ⟨?_, ?_⟩
  · simp only [commitRequest, all]
  · simp only [commitRequest] at unfinished ⊢
    rw [if_neg (Bool.eq_false_iff.mp unfinished)]

section request

variable (settings : Settings) (next : List Nat → Nat) (prompt : List Nat)

/-- A request between rounds: its output follows the target, is short of every
stop, ends with the current token, and has a tree drafted from it. -/
structure RequestState.Running (state : RequestState) (round : Nat) : Prop where
  owner : state.promptIds = prompt
  unfinished : state.finished = false
  follows : Follows next prompt state.outputTokens
  running : ∀ token ∈ state.outputTokens, settings.isEos token = false
  short : state.outputTokens.length < settings.maxNewTokens
  progress : round < state.outputTokens.length
  drafted : ∃ current tree, state.outputTokens.getLast? = some current ∧
    state.currentToken = some current ∧ state.tree = some tree ∧ tree.WellFormed current

/-- A finished request: its output is the plain decoding. -/
structure RequestState.Done (state : RequestState) : Prop where
  finished : state.finished = true
  output : state.outputTokens = decode next settings.isEos prompt settings.maxNewTokens

variable {settings next prompt}

/-- What a faithful target proposes after a running request follows the target. -/
theorem proposed_follows {state : RequestState} {round : Nat} {accepted : Accepted H}
    {tree : Tree} {path : List Nat} {choice : Nat → Nat}
    (running : state.Running settings next prompt round) (drafted : state.tree = some tree)
    (onTree : accepted.OnTree tree path) (greedy : accepted.Greedy tree choice path)
    (faithful : ∀ node nodePath, tree.rootPath node = some nodePath →
      choice node = next (state.promptIds ++ state.outputTokens.dropLast ++
        tree.tokensAt nodePath)) :
    Follows next (prompt ++ state.outputTokens) accepted.proposed := by
  obtain ⟨current, rooted, last, -, atTree, wellFormed⟩ := running.drafted
  obtain rfl : tree = rooted := Option.some.inj (drafted.symm.trans atTree)
  have output : state.outputTokens = state.outputTokens.dropLast ++ [current] :=
    (List.dropLast_append_getLast? current (by simpa using last)).symm
  have follows := greedy.follows onTree wellFormed faithful
  rwa [List.append_assoc, ← output, running.owner] at follows

/-- Committing proposals that follow the target either completes the plain
decoding or leaves everything proposed, unstopped and short of the limit. -/
theorem commitRequest_spec {state : RequestState} {round : Nat} (accepted : Accepted H)
    (running : state.Running settings next prompt round)
    (follows : Follows next (prompt ++ state.outputTokens) accepted.proposed) :
    (commitRequest settings state accepted).promptIds = prompt ∧
      ((commitRequest settings state accepted).Done settings next prompt ∨
        ((commitRequest settings state accepted).finished = false ∧
          (commitRequest settings state accepted).outputTokens =
            state.outputTokens ++ accepted.proposed ∧
          (∀ token ∈ accepted.proposed, settings.isEos token = false) ∧
          (state.outputTokens ++ accepted.proposed).length < settings.maxNewTokens)) := by
  have short := running.short
  obtain ⟨remaining, budget⟩ : ∃ remaining, settings.maxNewTokens =
      state.outputTokens.length + remaining := ⟨_, (Nat.add_sub_of_le short.le).symm⟩
  have some_left : 0 < remaining := by omega
  have sliced : sliceUpTo accepted.proposed
      ((settings.maxNewTokens : Int) - state.outputTokens.length) =
        accepted.proposed.take remaining := by
    rw [sliceUpTo, if_pos (by omega)]
    congr 1
    omega
  have proposedLength : accepted.proposed.length = accepted.acceptedTokenIds.length + 1 := by
    simp [Accepted.proposed]
  obtain ⟨front, last, rest, copied, whole, unstopped, ended⟩ :=
    takeUntilEos_split settings.isEos (accepted.proposed.take remaining)
      (List.ne_nil_of_length_pos (by rw [List.length_take]; omega))
  have lengths := congrArg List.length whole
  simp only [List.length_take, List.length_append, List.length_singleton] at lengths
  have takenFollows : Follows next (prompt ++ state.outputTokens) (front ++ [last]) := by
    have part := follows_take next _ _ remaining follows
    rw [whole, follows_append] at part
    exact part.1
  refine ⟨running.owner, ?_⟩
  simp only [commitRequest, sliced, copied]
  by_cases finished : (decide (settings.maxNewTokens ≤
      (state.outputTokens ++ (front ++ [last])).length) ||
        (front ++ [last]).getLast?.any settings.isEos ||
        decide ((front ++ [last]).length < accepted.proposed.length)) = true
  · left
    refine ⟨finished, ?_⟩
    have complete : (state.outputTokens ++ front).length + 1 = settings.maxNewTokens ∨
        settings.isEos last = true := by
      -- A stop token ends the copy; otherwise the copy ends where the slice
      -- does, and a slice shorter than the proposal fills the budget.
      by_contra neither
      obtain ⟨notFull, notEos⟩ := not_or.mp neither
      have exhausted : rest = [] := ended.resolve_right notEos
      simp only [exhausted, List.length_nil] at lengths
      simp only [List.length_append, List.length_singleton] at finished notFull
      simp [notEos] at finished
      omega
    rw [← List.append_assoc]
    refine (decode_complete next settings.isEos prompt (state.outputTokens ++ front) last
      settings.maxNewTokens ?_ ?_ ?_ complete).symm
    · rw [List.append_assoc, follows_append]
      exact ⟨running.follows, takenFollows⟩
    · intro token member
      rcases List.mem_append.mp member with earlier | taken
      · exact running.running token earlier
      · exact unstopped token taken
    · rw [List.length_append]
      omega
  · right
    have unfinished := Bool.not_eq_true _ ▸ finished
    simp only [Bool.or_eq_false_iff, decide_eq_false_iff_not, Nat.not_le, Nat.not_lt,
      List.getLast?_append, List.getLast?_singleton, Option.some_or, Option.any_some] at unfinished
    obtain ⟨⟨room, notEos⟩, all⟩ := unfinished
    have copies : front ++ [last] = accepted.proposed := by
      have isPrefix : front ++ [last] <+: accepted.proposed := by
        rw [← copied]
        exact (takeUntilEos_isPrefix _ _).trans (List.take_prefix _ _)
      exact isPrefix.eq_of_length_le all
    refine ⟨Bool.eq_false_iff.mpr finished, congrArg (state.outputTokens ++ ·) copies, ?_, copies ▸ room⟩
    intro token member
    rw [← copies] at member
    rcases List.mem_append.mp member with earlier | final
    · exact unstopped token earlier
    · simpa [List.mem_singleton.mp final] using notEos

theorem advance_spec {state : RequestState} {round request : Nat} {draft : Draft}
    (accepted : Accepted H) (trees : draft.WellFormed)
    (running : state.Running settings next prompt round)
    (follows : Follows next (prompt ++ state.outputTokens) accepted.proposed) :
    let advanced := advance settings draft (round + 1) request accepted state
    (advanced.finished = true → advanced.Done settings next prompt) ∧
      (advanced.finished = false → advanced.Running settings next prompt (round + 1)) := by
  obtain ⟨owner, done | ⟨unfinished, output, unstopped, room⟩⟩ :=
    commitRequest_spec accepted running follows
  · simp only [advance, done.finished, if_true]
    exact ⟨fun _ => done, fun impossible => by simp at impossible⟩
  · have survives : (draftNext draft (round + 1) request accepted.nextToken
        (commitRequest settings state accepted)).Running settings next prompt (round + 1) := by
      refine ⟨owner, unfinished, ?_, ?_, ?_, ?_, ?_⟩
      · simp only [draftNext, output, follows_append]
        exact ⟨running.follows, follows⟩
      · simp only [draftNext, output]
        intro token member
        rcases List.mem_append.mp member with earlier | proposed
        · exact running.running token earlier
        · exact unstopped token proposed
      · simpa only [draftNext, output] using room
      · have progress := running.progress
        simp only [draftNext, output, List.length_append, Accepted.proposed,
          List.length_singleton]
        omega
      · refine ⟨accepted.nextToken, _, ?_, rfl, rfl, trees _ _ _ _ rfl⟩
        simp [draftNext, output, Accepted.proposed]
    simp only [advance, unfinished, Bool.false_eq_true, if_false]
    refine ⟨fun finished => ?_, fun _ => survives⟩
    simp [draftNext, unfinished] at finished

end request

end SpecBlock.Batch
