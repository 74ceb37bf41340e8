import Mathlib.Tactic.Ring
import SpecBlock.Serving.ScheduleBatch

/-!
# What a draft cache keeps of a request

Block 1 stores, for every position it is fed, one slot per block offset: a key and a value
that come from the target's hidden row, the input token, the slot's own query and its rope
position. The cached context of a request is the list of these slots, together with the
position the next draft counts from.

A decode round feeds the accepted chain: hidden rows of the root and the accepted nodes,
each with the token one further, the target's own token twice at the end. Where nothing
was accepted the failed block is dropped first and the position stays.

This is the abstract account of a round. The three decode loops keep the context in a
counted buffer, in rows of a shared storage and in slots of a paged pool.
-/

namespace SpecBlock.Draft

open Serving

variable {H : Type}

/-- What a cached slot was computed from. -/
structure CrossSlot (H : Type) where
  hidden : H
  token : Nat
  slot : Nat
  position : Int
  deriving DecidableEq, Repr

/-- The slots of one position id: the slot at each offset is one rope position further. -/
def positionSlots (K : Nat) (hidden : H) (token : Nat) (positionId : Int) : List (CrossSlot H) :=
  (List.range K).map (fun slot => ⟨hidden, token, slot, positionId + 1 + slot⟩)

/-- The slots of a forward over several positions. -/
def chainSlots (K : Nat) : Int → List H → List Nat → List (CrossSlot H)
  | startPosition, hidden :: rows, token :: tokens =>
    positionSlots K hidden token startPosition ++ chainSlots K (startPosition + 1) rows tokens
  | _, _, _ => []

@[simp] theorem positionSlots_length (K : Nat) (hidden : H) (token : Nat) (positionId : Int) :
    (positionSlots K hidden token positionId).length = K := by
  simp [positionSlots]

theorem chainSlots_length (K : Nat) (startPosition : Int) (rows : List H) (tokens : List Nat)
    (paired : tokens.length = rows.length) :
    (chainSlots K startPosition rows tokens).length = rows.length * K := by
  induction rows generalizing startPosition tokens with
  | nil => simp [chainSlots]
  | cons hidden rows ih =>
    cases tokens with
    | nil => simp at paired
    | cons token tokens =>
      rw [chainSlots, List.length_append, positionSlots_length,
        ih _ _ (by simpa using paired), List.length_cons, Nat.succ_mul,
        Nat.add_comm]

theorem chainSlots_zero (startPosition : Int) (rows : List H) (tokens : List Nat) :
    chainSlots 0 startPosition rows tokens = [] := by
  induction rows generalizing startPosition tokens with
  | nil => simp [chainSlots]
  | cons hidden rows ih =>
    cases tokens with
    | nil => rfl
    | cons token tokens => simp [chainSlots, positionSlots, ih]

/-- A forward over two lists of positions, one after the other. -/
theorem chainSlots_append (K : Nat) (startPosition : Int) (rows more : List H)
    (tokens others : List Nat) (paired : tokens.length = rows.length) :
    chainSlots K startPosition (rows ++ more) (tokens ++ others) =
      chainSlots K startPosition rows tokens ++
        chainSlots K (startPosition + rows.length) more others := by
  induction rows generalizing startPosition tokens with
  | nil =>
    obtain rfl := List.length_eq_zero_iff.mp paired
    simp [chainSlots]
  | cons hidden rows ih =>
    cases tokens with
    | nil => simp at paired
    | cons token tokens =>
      have further : startPosition + 1 + (rows.length : Int) =
          startPosition + (rows.length + 1 : Nat) := by push_cast; ring
      rw [List.cons_append, List.cons_append, chainSlots, chainSlots,
        ih _ _ (by simpa using paired), List.append_assoc, List.length_cons,
        further]

theorem chainSlots_getElem? {K : Nat} (startPosition : Int) (rows : List H) (tokens : List Nat)
    (paired : tokens.length = rows.length) {column slot : Nat} (small : slot < K)
    {hidden : H} {token : Nat} (row : rows[column]? = some hidden)
    (read : tokens[column]? = some token) :
    (chainSlots K startPosition rows tokens)[column * K + slot]? =
      some ⟨hidden, token, slot, startPosition + column + 1 + slot⟩ := by
  induction rows generalizing startPosition tokens column with
  | nil => simp at row
  | cons first rows ih =>
    cases tokens with
    | nil => simp at paired
    | cons firstToken tokens =>
      cases column with
      | zero =>
        obtain rfl : first = hidden := by simpa using row
        obtain rfl : firstToken = token := by simpa using read
        rw [chainSlots, Nat.zero_mul, Nat.zero_add,
          List.getElem?_append_left (by simpa using small)]
        simp [positionSlots, small]
      | succ column =>
        have place : (column + 1) * K + slot = K + (column * K + slot) := by ring
        rw [chainSlots, place, List.getElem?_append_right (by simp), positionSlots_length,
          Nat.add_sub_cancel_left, ih (startPosition + 1) tokens
            (by simpa using paired) (by simpa using row) (by simpa using read)]
        congr 2
        push_cast
        ring

/-- Slots computed one by one, with the right content at each column and offset. -/
theorem map_eq_chainSlots {K : Nat} (startPosition : Int) (rows : List H) (tokens : List Nat)
    (paired : tokens.length = rows.length) (computed : Nat → CrossSlot H)
    (right : ∀ column slot hidden token, slot < K → rows[column]? = some hidden →
      tokens[column]? = some token →
      computed (column * K + slot) = ⟨hidden, token, slot, startPosition + column + 1 + slot⟩) :
    (List.range (rows.length * K)).map computed = chainSlots K startPosition rows tokens := by
  have size := chainSlots_length K startPosition rows tokens paired
  apply List.ext_getElem?
  intro index
  by_cases inside : index < rows.length * K
  · have positive : 0 < K := Nat.pos_of_mul_pos_left (Nat.lt_of_le_of_lt (Nat.zero_le _) inside)
    have column : index / K < rows.length := Nat.div_lt_of_lt_mul (by rwa [Nat.mul_comm])
    have place : index / K * K + index % K = index := by
      rw [Nat.mul_comm]
      exact Nat.div_add_mod _ _
    have row := List.getElem?_eq_getElem column
    have inTokens : index / K < tokens.length := by omega
    have read := List.getElem?_eq_getElem inTokens
    have small := Nat.mod_lt index positive
    have slot := chainSlots_getElem? startPosition rows tokens paired small row read
    rw [place] at slot
    rw [slot, List.getElem?_map, List.getElem?_range inside, Option.map_some,
      ← right _ _ _ _ small row read, place]
  · rw [List.getElem?_eq_none (by simp; omega), List.getElem?_eq_none (by omega)]

/-- The cached context of a request and the position its next draft counts from. -/
structure DraftContext (H : Type) where
  slots : List (CrossSlot H)
  draftPosition : Nat

/-- What a decode round leaves behind: the slots it appended, how many the cache then holds,
the persistent position, and the position block 2 is seeded at. -/
structure RoundRecord (H : Type) where
  appended : List (CrossSlot H)
  cachedSlots : Nat
  draftPosition : Nat
  block2Position : Int

/-- Tokens fed with an accepted chain: shifted by one, the target's own token twice. -/
def chainTokens (chain : AcceptedChain H) : List Nat :=
  chain.verifiedIds.drop 1 ++ [chain.lastToken]

theorem chainTokens_length (chain : AcceptedChain H) :
    (chainTokens chain).length = chain.verifiedHidden.length := by
  simp [chainTokens, AcceptedChain.verifiedIds, AcceptedChain.verifiedHidden, chain.covered]

/-- Hidden rows of a chain: one per accepted token and the last one. -/
theorem verifiedHidden_length (chain : AcceptedChain H) :
    chain.verifiedHidden.length = chain.acceptLength + 1 := by
  simp [AcceptedChain.verifiedHidden, AcceptedChain.acceptLength, chain.covered]

namespace DraftContext

variable (K : Nat) (context : DraftContext H) (chain : AcceptedChain H)

/-- The slots a round starts from: without the failed block where nothing was accepted. -/
def kept : List (CrossSlot H) :=
  if chain.acceptLength = 0 then context.slots.take (context.slots.length - K) else context.slots

/-- Position id of the first fed position. -/
def startPosition : Nat :=
  if chain.acceptLength = 0 then context.draftPosition else context.draftPosition + 1

/-- The slots a round appends. -/
def appended : List (CrossSlot H) :=
  chainSlots K (context.startPosition chain) chain.verifiedHidden (chainTokens chain)

/-- A decode round. -/
def refresh : DraftContext H where
  slots := context.kept K chain ++ context.appended K chain
  draftPosition :=
    if chain.acceptLength = 0 then context.draftPosition
    else context.draftPosition + 1 + (chain.acceptLength + 1)

/-- What a decode round leaves behind, block 2 being seeded where the last fed position is. -/
def record : RoundRecord H where
  appended := context.appended K chain
  cachedSlots := (context.refresh K chain).slots.length
  draftPosition := (context.refresh K chain).draftPosition
  block2Position := context.startPosition chain + chain.acceptLength

/-- Decode rounds, one after the other. -/
def rounds : DraftContext H → List (AcceptedChain H) → DraftContext H
  | context, [] => context
  | context, chain :: chains => rounds (context.refresh K chain) chains

/-- What decode rounds leave behind. -/
def records : DraftContext H → List (AcceptedChain H) → List (RoundRecord H)
  | _, [] => []
  | context, chain :: chains => context.record K chain :: records (context.refresh K chain) chains

variable {K context chain}

theorem appended_length :
    (context.appended K chain).length = (chain.acceptLength + 1) * K := by
  rw [appended, chainSlots_length _ _ _ _ (chainTokens_length chain), verifiedHidden_length]

theorem refresh_drafted : K ≤ (context.refresh K chain).slots.length := by
  show K ≤ (_ ++ _ : List _).length
  rw [List.length_append, appended_length, Nat.succ_mul]
  omega

theorem rounds_concat (chains : List (AcceptedChain H)) :
    context.rounds K (chains ++ [chain]) = (context.rounds K chains).refresh K chain := by
  induction chains generalizing context with
  | nil => rfl
  | cons first chains ih => exact ih

theorem records_concat (chains : List (AcceptedChain H)) :
    context.records K (chains ++ [chain]) =
      context.records K chains ++ [(context.rounds K chains).record K chain] := by
  induction chains generalizing context with
  | nil => rfl
  | cons first chains ih =>
    exact congrArg (context.record K first :: ·) ih

theorem records_length (context : DraftContext H) (K : Nat) (chains : List (AcceptedChain H)) :
    (context.records K chains).length = chains.length := by
  induction chains generalizing context with
  | nil => rfl
  | cons chain chains ih =>
    exact congrArg (· + 1) (ih (context.refresh K chain))

end DraftContext

/-- A request enters the decode loop with a drafted block in its cache. -/
structure PromptContext (K : Nat) (H : Type) extends DraftContext H where
  drafted : K ≤ slots.length

end SpecBlock.Draft
