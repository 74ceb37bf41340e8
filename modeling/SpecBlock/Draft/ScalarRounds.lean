import SpecBlock.Draft.ContextSlots
import SpecBlock.Foundation.LivePrefix

/-!
# Rounds of the single-request loop

The loop keeps a counted buffer and the draft position. When nothing was accepted it pops
the failed block and drafts the target's token at the same position; otherwise one forward
feeds the accepted chain from one position further. The tree is then built from block 1's
outputs, with block 2 at the position of the last fed token.

Growing the buffer copies the live slots and is left out here.
-/

namespace SpecBlock.Draft

open Serving

variable {H : Type}

/-- The draft of one request. -/
structure ScalarDraft (H : Type) where
  cache : LivePrefix (CrossSlot H)
  draftPosition : Nat

/-- Drop the last position's slots. -/
def popCache (K : Nat) (cache : LivePrefix (CrossSlot H)) : LivePrefix (CrossSlot H) :=
  if K ≤ cache.count then cache.retract K else cache

/-- Block 1 over one position that is kept in the cache. -/
def forwardWithCache (K : Nat) (hidden : H) (inputId : Nat) (positionId : Int)
    (cache : LivePrefix (CrossSlot H)) : LivePrefix (CrossSlot H) :=
  cache.append (positionSlots K hidden inputId positionId)

/-- Block 1 over several positions; the last one is drafted. Returns the new position. -/
def updateCacheAndDraft (K : Nat) (hidden : List H) (inputIds : List Nat) (startPosition : Nat)
    (cache : LivePrefix (CrossSlot H)) : LivePrefix (CrossSlot H) × Nat :=
  (cache.append (chainSlots K startPosition hidden inputIds), startPosition + hidden.length)

/-- Tokens fed when something was accepted. -/
def batchTokens (acceptedTokenIds : List Nat) (nextToken : Nat) : List Nat :=
  if acceptedTokenIds.length = 1 then [nextToken, nextToken]
  else acceptedTokenIds.drop 1 ++ [nextToken, nextToken]

/-- Hidden rows of the round: none but the last one's when nothing was accepted. -/
def lazyHidden (chain : AcceptedChain H) : List H := chain.hidden ++ [chain.lastHidden]

namespace ScalarDraft

/-- The draft of the next round. -/
def nextDraft (K : Nat) (chain : AcceptedChain H) (state : ScalarDraft H) :
    ScalarDraft H × RoundRecord H :=
  if chain.tokens.length = 0 then
    let popped := popCache K state.cache
    let cache := forwardWithCache K chain.lastHidden chain.lastToken state.draftPosition popped
    (⟨cache, state.draftPosition⟩, {
      appended := positionSlots K chain.lastHidden chain.lastToken state.draftPosition
      cachedSlots := cache.count
      draftPosition := state.draftPosition
      block2Position := state.draftPosition })
  else
    let batchTok := batchTokens chain.tokens chain.lastToken
    let updated := updateCacheAndDraft K (lazyHidden chain) batchTok (state.draftPosition + 1)
      state.cache
    (⟨updated.1, updated.2⟩, {
      appended := chainSlots K (state.draftPosition + 1 : Nat) (lazyHidden chain) batchTok
      cachedSlots := updated.1.count
      draftPosition := updated.2
      block2Position := (updated.2 : Int) - 1 })

/-- Decode rounds, with what each leaves behind. -/
def rounds (K : Nat) : ScalarDraft H → List (AcceptedChain H) → ScalarDraft H × List (RoundRecord H)
  | state, [] => (state, [])
  | state, chain :: chains =>
    let next := state.nextDraft K chain
    let later := rounds K next.1 chains
    (later.1, next.2 :: later.2)

/-- The draft after a prompt. -/
def start (context : DraftContext H) : ScalarDraft H :=
  ⟨LivePrefix.blank.append context.slots, context.draftPosition⟩

/-- The buffer holds the context. -/
structure Represents (state : ScalarDraft H) (context : DraftContext H) : Prop where
  holds : state.cache.Holds context.slots
  position : state.draftPosition = context.draftPosition

theorem start_represents (context : DraftContext H) : (start context).Represents context :=
  ⟨LivePrefix.holds_blank.append context.slots, rfl⟩

end ScalarDraft

/-- A chain that accepted nothing has no token but the target's own. -/
theorem acceptLength_zero {chain : AcceptedChain H} (none : chain.tokens.length = 0) :
    chain.verifiedHidden = [chain.lastHidden] ∧ chainTokens chain = [chain.lastToken] := by
  have noHidden : chain.hidden = [] := List.length_eq_zero_iff.mp (chain.covered.trans none)
  have noTokens : chain.tokens = [] := List.length_eq_zero_iff.mp none
  simp [AcceptedChain.verifiedHidden, chainTokens, AcceptedChain.verifiedIds, noHidden, noTokens]

/-- The tokens the loop feeds are the shifted ones, the last one twice. -/
theorem batchTokens_eq {chain : AcceptedChain H} (some : chain.tokens.length ≠ 0) :
    batchTokens chain.tokens chain.lastToken = chainTokens chain := by
  unfold batchTokens chainTokens AcceptedChain.verifiedIds
  rw [List.drop_append_of_le_length (by omega), List.append_assoc]
  split
  next single =>
    rw [List.drop_eq_nil_of_le (by omega)]
    rfl
  next several => rfl

theorem chainSlots_single (K : Nat) (startPosition : Int) (hidden : H) (token : Nat) :
    chainSlots K startPosition [hidden] [token] = positionSlots K hidden token startPosition := by
  simp [chainSlots]

theorem popCache_holds {K : Nat} {cache : LivePrefix (CrossSlot H)} {slots : List (CrossSlot H)}
    (holds : cache.Holds slots) (drafted : K ≤ slots.length) :
    (popCache K cache).Holds (slots.take (slots.length - K)) := by
  unfold popCache
  rw [if_pos (holds.counted ▸ drafted)]
  have size : (slots.drop (slots.length - K)).length = K := by
    rw [List.length_drop]
    omega
  have split := holds
  rw [← List.take_append_drop (slots.length - K) slots] at split
  have dropped := split.retract
  rw [size] at dropped
  exact dropped

namespace ScalarDraft

variable {K : Nat} {state : ScalarDraft H} {context : DraftContext H}

/-- A round keeps the context as it should and leaves the right things behind. -/
theorem nextDraft_refresh (represents : state.Represents context)
    (drafted : K ≤ context.slots.length) (chain : AcceptedChain H) :
    (state.nextDraft K chain).1.Represents (context.refresh K chain) ∧
      (state.nextDraft K chain).2 = context.record K chain := by
  obtain ⟨holds, position⟩ := represents
  by_cases none : chain.tokens.length = 0
  · have accepted : chain.acceptLength = 0 := none
    obtain ⟨hidden, tokens⟩ := acceptLength_zero none
    have appended : context.appended K chain =
        positionSlots K chain.lastHidden chain.lastToken state.draftPosition := by
      rw [DraftContext.appended, hidden, tokens, DraftContext.startPosition, if_pos accepted,
        position, chainSlots_single]
    have following : (forwardWithCache K chain.lastHidden chain.lastToken state.draftPosition
        (popCache K state.cache)).Holds (context.refresh K chain).slots := by
      show LivePrefix.Holds _ (context.kept K chain ++ context.appended K chain)
      rw [appended, DraftContext.kept, if_pos accepted]
      exact (popCache_holds holds drafted).append _
    have next : (context.refresh K chain).draftPosition = context.draftPosition := if_pos accepted
    unfold nextDraft
    rw [if_pos none]
    refine ⟨⟨following, position.trans next.symm⟩, ?_⟩
    simp only [DraftContext.record, RoundRecord.mk.injEq]
    refine ⟨appended.symm, following.counted, position.trans next.symm, ?_⟩
    rw [DraftContext.startPosition, if_pos accepted, accepted, position]
    simp
  · have accepted : chain.acceptLength ≠ 0 := none
    have appended : context.appended K chain = chainSlots K (state.draftPosition + 1 : Nat)
        (lazyHidden chain) (batchTokens chain.tokens chain.lastToken) := by
      rw [DraftContext.appended, DraftContext.startPosition, if_neg accepted, position,
        batchTokens_eq none]
      rfl
    have length : (lazyHidden chain).length = chain.acceptLength + 1 := verifiedHidden_length chain
    have following : (updateCacheAndDraft K (lazyHidden chain)
        (batchTokens chain.tokens chain.lastToken) (state.draftPosition + 1)
          state.cache).1.Holds (context.refresh K chain).slots := by
      show LivePrefix.Holds _ (context.kept K chain ++ context.appended K chain)
      rw [appended, DraftContext.kept, if_neg accepted]
      exact holds.append _
    have next : (context.refresh K chain).draftPosition =
        state.draftPosition + 1 + (lazyHidden chain).length := by
      rw [length, position]
      exact if_neg accepted
    unfold nextDraft
    rw [if_neg none]
    refine ⟨⟨following, next.symm⟩, ?_⟩
    simp only [DraftContext.record, RoundRecord.mk.injEq]
    refine ⟨appended.symm, following.counted, next.symm, ?_⟩
    rw [DraftContext.startPosition, if_neg accepted]
    show ((state.draftPosition + 1 + (lazyHidden chain).length : Nat) : Int) - 1 = _
    rw [length, position]
    push_cast
    ring

theorem rounds_refresh (represents : state.Represents context)
    (drafted : K ≤ context.slots.length) (chains : List (AcceptedChain H)) :
    (state.rounds K chains).1.Represents (context.rounds K chains) ∧
      (state.rounds K chains).2 = context.records K chains := by
  induction chains generalizing state context with
  | nil => exact ⟨represents, rfl⟩
  | cons chain chains ih =>
    obtain ⟨following, left⟩ := nextDraft_refresh represents drafted chain
    obtain ⟨later, leftLater⟩ := ih following DraftContext.refresh_drafted
    exact ⟨later, congrArg₂ (· :: ·) left leftLater⟩

end ScalarDraft

end SpecBlock.Draft
