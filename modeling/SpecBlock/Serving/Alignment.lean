import Mathlib.Data.List.TakeWhile
import SpecBlock.Serving.Scheduler

/-!
# Draft state against the order of the batch

A batch and the draft state it carries list the same requests in parallel fields.
The abstract picture is one record per request: prefill and refresh compute a new
record for each request from its own inputs, filters and merges only select and
append. Along every run the fields of a draft state are the records of the batch's
requests, in order, with one exception: `new_seq_lens` keeps the lengths of the
requests the state was built for. It agrees with the batch as far as the leading
requests have kept their place, so positions are right when all of them have.
-/

namespace SpecBlock.Serving

open Rows

variable {T α : Type}

theorem assign_other {keys : List Nat} {values : List α} {record : Nat → α} {key : Nat}
    (other : key ∉ keys) : assign keys values record key = record key := by
  unfold assign
  have absent : (keys.zip values).lookup key = none := by
    rw [List.lookup_eq_none_iff]
    intro pair member
    have inKeys := (List.of_mem_zip member).1
    simp only [bne_iff_ne, ne_eq]
    exact fun same => other (same ▸ inKeys)
  rw [absent, Option.getD_none]

theorem assign_map {keys : List Nat} {values : List α} (record : Nat → α) (distinct : keys.Nodup)
    (long : keys.length = values.length) : keys.map (assign keys values record) = values := by
  induction keys generalizing values with
  | nil => exact (List.length_eq_zero_iff.mp long.symm).symm
  | cons key keys ih =>
    cases values with
    | nil => simp at long
    | cons value values =>
      obtain ⟨new, distinct⟩ := List.nodup_cons.mp distinct
      have rest : keys.map (assign keys values record) = values :=
        ih distinct (by simpa using long)
      have first : assign (key :: keys) (value :: values) record key = value := by
        simp [assign]
      have others : keys.map (assign (key :: keys) (value :: values) record) =
          keys.map (assign keys values record) := by
        apply List.map_congr_left
        intro other member
        have distinctKeys : (other == key) = false := by
          simpa using fun same : other = key => new (same ▸ member)
        simp [assign, List.lookup_cons, distinctKeys]
      rw [List.map_cons, first, others, rest]

/-- Gathering parallel fields gathers the contributions of the requests. -/
theorem gathered_assemble (keep : List Nat) (rows : List (RequestDraft T)) (newSeqLens : List Nat) :
    (SpecBlockDraftInput.assemble rows newSeqLens).gathered keep =
      SpecBlockDraftInput.assemble (gather keep rows) newSeqLens := by
  simp [SpecBlockDraftInput.gathered, SpecBlockDraftInput.assemble, gather_map]

/-- Merging parallel fields lists the contributions of both, with the first's lengths. -/
theorem mergeBatch_assemble (rows others : List (RequestDraft T))
    (newSeqLens otherLens : List Nat) :
    (SpecBlockDraftInput.assemble rows newSeqLens).mergeBatch
        (SpecBlockDraftInput.assemble others otherLens) =
      SpecBlockDraftInput.assemble (rows ++ others) newSeqLens := by
  simp [SpecBlockDraftInput.mergeBatch, SpecBlockDraftInput.assemble, catTensor]

/-- The rollback of one request does not depend on the others. -/
theorem rollbackRejected_row {K first : Nat} {accepts : List Nat} {locs : List (List Nat)}
    {counts : List Nat} {rolled : List (List Nat) × List Nat} {pool final : SpecBlockKVPool}
    (ran : rollbackRejected K first accepts locs counts pool = .ok rolled final)
    (request acceptLen : Nat) (accepted : accepts[request]? = some acceptLen) :
    ∃ (loc : List Nat) (count : Nat), locs[request]? = some loc ∧ counts[request]? = some count ∧
      rolled.1[request]? = some (if acceptLen = 0 then loc.take (loc.length - K) else loc) ∧
      rolled.2[request]? = some (if acceptLen = 0 then count - K else count) := by
  induction accepts generalizing first locs counts rolled pool request with
  | nil => simp at accepted
  | cons accept accepts ih =>
    cases locs with
    | nil => exact (PoolM.throw_ok.mp ran).elim
    | cons loc locs =>
      cases counts with
      | nil => exact (PoolM.throw_ok.mp ran).elim
      | cons count counts =>
        unfold rollbackRejected at ran
        split at ran
        next some =>
          obtain ⟨rest, between, following, done⟩ := PoolM.bind_ok.mp ran
          obtain ⟨rfl, rfl⟩ := PoolM.pure_ok.mp done
          cases request with
          | zero =>
            obtain rfl : accept = acceptLen := by simpa using accepted
            simp [some]
          | succ request => simpa using ih following request (by simpa using accepted)
        next none =>
          split at ran
          · exact (PoolM.throw_ok.mp ran).elim
          · obtain ⟨done, between, released, ran⟩ := PoolM.bind_ok.mp ran
            obtain ⟨rest, after, following, done⟩ := PoolM.bind_ok.mp ran
            obtain ⟨rfl, rfl⟩ := PoolM.pure_ok.mp done
            cases request with
            | zero =>
              obtain rfl : accept = acceptLen := by simpa using accepted
              simp [not_not.mp none]
            | succ request =>
              simpa using ih following request (by simpa using accepted)

/-- The tail of a request's chain in the flat chains is the last row of its own chain. -/
theorem chainTail_flat {β : Type} {chains : List β} {rows : β → List α} {last : β → α}
    {size : β → Nat} (sized : ∀ chain, (rows chain).length = size chain + 1)
    (ends : ∀ chain, (rows chain)[size chain]? = some (last chain)) {request : Nat} {chain : β}
    (here : chains[request]? = some chain) :
    chainTail (chains.flatMap rows) ((chains.map size).map (· + 1)) request = .ok (last chain) := by
  unfold chainTail
  rw [entryAt_ok]
  obtain ⟨inside, rfl⟩ := List.getElem?_eq_some_iff.mp here
  have split : chains = chains.take request ++ chains[request] :: chains.drop (request + 1) := by
    rw [← List.drop_eq_getElem_cons inside, List.take_append_drop]
  have before : ((chains.take request).flatMap rows).length =
      ((chains.take request).map (fun chain => size chain + 1)).sum := by
    rw [List.length_flatMap]
    simp only [sized]
  have total : ((((chains.map size).map (· + 1)).take (request + 1)).sum - 1) =
      ((chains.take request).flatMap rows).length + size chains[request] := by
    rw [before, List.map_map, ← List.map_take, List.take_succ_eq_append_getElem inside]
    simp only [Function.comp_def, List.map_append, List.map_cons, List.map_nil, List.sum_append,
      List.sum_cons, List.sum_nil]
    omega
  have long : ((chains.take request).flatMap rows).length + size chains[request] ≤
      (chains.flatMap rows).length - 1 := by
    rw [congrArg (List.flatMap rows) split]
    simp only [List.flatMap_append, List.flatMap_cons, List.length_append, sized]
    omega
  rw [total, Nat.min_eq_left long, congrArg (List.flatMap rows) split, List.flatMap_append,
    List.getElem?_append_right (by omega), Nat.add_sub_cancel_left, List.flatMap_cons,
    List.getElem?_append_left (by rw [sized]; omega)]
  exact ends _

/-- A refresh computes the new state of each request from its own state and chain. -/
theorem refreshDraftState_assemble {worker : SpecBlockWorker} {info : SpecBlockVerifyInput T}
    {olds : List (RequestDraft T)} {chains : List (AcceptedChain T)}
    {replay : Nat → RefreshReplay T} {seqLens : List Nat} {next : SpecBlockDraftInput T}
    {pool final : SpecBlockKVPool} (each : chains.length = olds.length)
    (sameLoc : info.crossLoc = olds.map RequestDraft.crossLoc)
    (sameCount : info.crossCount = olds.map RequestDraft.crossCount)
    (samePosition : info.crossPosition = olds.map RequestDraft.crossPosition)
    (ran : refreshDraftState worker info (chains.flatMap AcceptedChain.verifiedIds)
      (chains.flatMap AcceptedChain.verifiedHidden) (chains.map AcceptedChain.acceptLength) replay
      seqLens pool = .ok next final) :
    next = SpecBlockDraftInput.assemble ((olds.zip chains).mapIdx (fun position entry =>
      entry.1.refreshed worker.K entry.2 (replay position)
        ((next.crossLoc.getD position []).drop
          (entry.1.kept worker.K entry.2.acceptLength).length))) seqLens := by
  obtain ⟨rolled, between, newIndices, rows, rollback, allocated, assembled, rfl⟩ :=
    refreshDraftState_ok ran
  obtain ⟨rowsLong, row⟩ := refreshRows_row assembled
  refine congrArg (fun rows => SpecBlockDraftInput.assemble rows seqLens) ?_
  apply List.ext_getElem?
  intro position
  by_cases inside : position < chains.length
  · have here := List.getElem?_eq_getElem inside
    have oldHere := List.getElem?_eq_getElem (each ▸ inside : position < olds.length)
    have accepted : (chains.map AcceptedChain.acceptLength)[position]? =
        some chains[position].acceptLength := by simp [here]
    obtain ⟨hiddenState, token, at', loc, new, count, tailHidden, tailToken, atPosition, atLoc,
      atNew, atCount, built⟩ := row position _ accepted
    obtain ⟨oldLoc, oldCount, atOldLoc, atOldCount, rolledLoc, rolledCount⟩ :=
      rollbackRejected_row rollback position _ accepted
    have ownHidden : hiddenState = chains[position].lastHidden := by
      refine Except.ok.inj (tailHidden.symm.trans (chainTail_flat ?_ ?_ here))
      · intro chain
        simp [AcceptedChain.verifiedHidden, AcceptedChain.acceptLength, chain.covered]
      · intro chain
        simp [AcceptedChain.verifiedHidden, AcceptedChain.acceptLength, ← chain.covered]
    have ownToken : token = chains[position].lastToken := by
      refine Except.ok.inj (tailToken.symm.trans (chainTail_flat ?_ ?_ here))
      · intro chain
        simp [AcceptedChain.verifiedIds, AcceptedChain.acceptLength]
      · intro chain
        simp [AcceptedChain.verifiedIds, AcceptedChain.acceptLength]
    rw [sameLoc, List.getElem?_map, oldHere] at atOldLoc
    rw [sameCount, List.getElem?_map, oldHere] at atOldCount
    rw [samePosition, List.getElem?_map, oldHere] at atPosition
    have ownLoc : loc = olds[position].kept worker.K chains[position].acceptLength := by
      rw [atLoc] at rolledLoc
      rw [Option.some.inj rolledLoc, ← Option.some.inj atOldLoc]
      rfl
    have ownCount : count = if chains[position].acceptLength = 0
        then olds[position].crossCount - worker.K else olds[position].crossCount := by
      rw [atCount] at rolledCount
      rw [Option.some.inj rolledCount, ← Option.some.inj atOldCount]
    have granted : (((SpecBlockDraftInput.assemble rows seqLens).crossLoc.getD position []).drop
        (olds[position].kept worker.K chains[position].acceptLength).length) = new := by
      simp [SpecBlockDraftInput.assemble, built, ownLoc]
    have entry : (olds.zip chains)[position]? = some (olds[position], chains[position]) := by
      simp [List.getElem?_zip_eq_some, oldHere, here]
    rw [built, List.getElem?_mapIdx, entry, Option.map_some]
    simp only [granted]
    rw [← Option.some.inj atPosition, ownHidden, ownToken, ownLoc, ownCount]
    rfl
  · have accepts : (chains.map AcceptedChain.acceptLength).length = chains.length :=
      List.length_map _
    rw [List.getElem?_eq_none (by omega), List.getElem?_eq_none (by simp; omega)]

theorem keptInPlace_take (settled : Nat) (keep : List Nat) :
    keptInPlace settled keep ≤ settled ∧
      keep.take (keptInPlace settled keep) = List.range (keptInPlace settled keep) ∧
      keptInPlace settled keep ≤ keep.length := by
  have inPlace : ∀ position < keptInPlace settled keep, keep[position]? = some position := by
    intro position inside
    have read : ((List.range settled).takeWhile
        (fun position => keep[position]? = some position))[position]? = some position := by
      have within := List.takeWhile_prefix (l := List.range settled)
        (fun position => decide (keep[position]? = some position))
      have reach := Nat.lt_of_lt_of_le inside within.length_le
      rw [List.length_range] at reach
      rw [List.prefix_iff_eq_take.mp within]
      exact (List.getElem?_take_of_lt inside).trans (List.getElem?_range reach)
    simpa using List.mem_takeWhile_imp (List.mem_of_getElem? read)
  have long : keptInPlace settled keep ≤ keep.length := by
    by_contra short
    have outside := inPlace keep.length (Nat.lt_of_not_le short)
    simp at outside
  refine ⟨?_, ?_, long⟩
  · have within := List.takeWhile_prefix (l := List.range settled)
      (fun position => decide (keep[position]? = some position))
    simpa [keptInPlace] using within.length_le
  · apply List.ext_getElem?
    intro position
    by_cases inside : position < keptInPlace settled keep
    · rw [List.getElem?_take_of_lt inside, inPlace position inside, List.getElem?_range inside]
    · rw [List.getElem?_eq_none (by simp; omega), List.getElem?_eq_none (by simpa using inside)]

/-- Rows gathered from leading positions left in place are the leading rows. -/
theorem gather_take_inPlace {keep : List Nat} {entries : List α} {size : Nat}
    (inside : ∀ row ∈ keep, row < entries.length) (inPlace : keep.take size = List.range size) :
    (gather keep entries).take size = entries.take size := by
  apply List.ext_getElem?
  intro position
  by_cases reached : position < size
  · have read : keep[position]? = some position := by
      rw [← List.getElem?_take_of_lt reached, inPlace, List.getElem?_range reached]
    rw [List.getElem?_take_of_lt reached, List.getElem?_take_of_lt reached,
      gather_getElem? _ _ inside, read, Option.bind_some]
  · simp [reached]

/-- A batch with requests carries the current state of each, in order; sequence lengths
agree as far as the leading requests have kept their place. -/
def Current (current : Nat → RequestDraft T) (tracked : TrackedBatch T) : Prop :=
  tracked.batch.reqs ≠ [] → ∃ newSeqLens,
    tracked.batch.specInfo =
      some (SpecBlockDraftInput.assemble (tracked.batch.rids.map current) newSeqLens) ∧
    tracked.batch.seqLens.length = tracked.batch.reqs.length ∧
    tracked.settled ≤ tracked.batch.reqs.length ∧
    newSeqLens.take tracked.settled = tracked.batch.seqLens.take tracked.settled

/-- The invariant of runs: requests are in one batch, whose draft state is current. -/
structure Aligned (state : SchedulerState T) : Prop where
  distinct : state.rids.Nodup
  rows : ∀ tracked ∈ state.batches, Current state.current tracked

/-- A batch none of whose requests was recomputed stays current. -/
theorem Current.congr {current following : Nat → RequestDraft T} {tracked : TrackedBatch T}
    (before : Current current tracked)
    (same : ∀ rid ∈ tracked.batch.rids, following rid = current rid) :
    Current following tracked := by
  intro requests
  obtain ⟨newSeqLens, carried, long, inside, lens⟩ := before requests
  refine ⟨newSeqLens, ?_, long, inside, lens⟩
  rw [carried, List.map_congr_left same]

/-- Identities of the live requests follow the order of the batches. -/
theorem rids_perm {state : SchedulerState T} {rest : List (TrackedBatch T)}
    (old : List (TrackedBatch T)) (live : state.batches.Perm (old ++ rest)) :
    state.rids.Perm (old.flatMap (fun tracked => tracked.batch.rids) ++
      rest.flatMap (fun tracked => tracked.batch.rids)) := by
  rw [← List.flatMap_append]
  exact live.flatMap_right _

section Steps

variable [Zero T] {worker : SpecBlockWorker} {state : SchedulerState T} {final : SpecBlockKVPool}
  {rest : List (TrackedBatch T)} {batch : ScheduleBatch T}

omit [Zero T] in
theorem prefill_aligned {prefillAndDraft : DraftPrefill T} {requests : List (PrefillRequest T)}
    (aligned : Aligned state)
    (new : ((requests.map (fun request => request.req.rid)) ++ state.rids).Nodup)
    (ran : prefillBatch prefillAndDraft requests state.pool = .ok batch final) :
    Aligned {
      pool := final
      batches := ⟨batch, batch.reqs.length⟩ :: state.batches
      current := assign batch.rids
        (List.zipWith (PrefillRequest.draft prefillAndDraft) requests batch.crossLoc)
        state.current } := by
  obtain ⟨rows, long, sliced, rfl⟩ := prefillBatch_rows ran
  have crossLoc : (ScheduleBatch.crossLoc ⟨requests.map PrefillRequest.req,
      requests.map PrefillRequest.seqLen, some (SpecBlockDraftInput.assemble rows
        (requests.map PrefillRequest.seqLen))⟩) = rows.map RequestDraft.crossLoc := rfl
  have rids : (ScheduleBatch.rids ⟨requests.map PrefillRequest.req,
      requests.map PrefillRequest.seqLen, some (SpecBlockDraftInput.assemble rows
        (requests.map PrefillRequest.seqLen))⟩) =
          requests.map (fun request => request.req.rid) := by
    simp [ScheduleBatch.rids, Function.comp_def]
  rw [crossLoc, ← sliced, rids]
  obtain ⟨own, others, apart⟩ := List.nodup_append.mp new
  constructor
  · simpa [SchedulerState.rids, rids] using new
  · intro tracked member
    rcases List.mem_cons.mp member with rfl | older
    · intro requests'
      refine ⟨requests.map PrefillRequest.seqLen, ?_, by simp, by simp, by simp⟩
      have sizes : (requests.map (fun request => request.req.rid)).length = rows.length := by
        simp [long]
      simp only [rids, assign_map state.current own sizes]
    · refine (aligned.rows tracked older).congr (fun rid member => assign_other ?_)
      intro inNew
      exact apart rid inNew rid (List.mem_flatMap.mpr ⟨tracked, older, member⟩) rfl

/-- Decoding records the next state of each request of the batch. -/
theorem decode_aligned {tracked : TrackedBatch T} {static : Nat → Nat → List (DraftRow T)}
    {emitDepths : List (DraftRow T) → List (List Nat)} {chains : List (AcceptedChain T)}
    {replay : Nat → RefreshReplay T} (aligned : Aligned state)
    (live : state.batches.Perm (tracked :: rest))
    (each : chains.length = tracked.batch.reqs.length)
    (ran : decodeBatch worker static emitDepths chains replay tracked.batch state.pool =
      .ok batch final) :
    Aligned {
      pool := final
      batches := ⟨batch, batch.reqs.length⟩ :: rest
      current := assign batch.rids
        ((tracked.batch.reqs.zip chains).mapIdx (fun position entry =>
          let previous := state.current entry.1.rid
          let granted := (batch.crossLoc.getD position []).drop
            (previous.kept worker.K entry.2.acceptLength).length
          previous.refreshed worker.K entry.2 (replay position) granted))
        state.current } := by
  obtain ⟨info, verifyInfo, next, carried, drafted, refreshed, rfl⟩ := decodeBatch_ok ran
  obtain ⟨bucket, copied, -, copying, rfl⟩ := draft_ok drafted
  obtain ⟨done, required, -⟩ := except_bind_ok.mp copying
  have active := (requireAligned_ok required).1
  have requests : tracked.batch.reqs ≠ [] := List.ne_nil_of_length_pos active
  obtain ⟨newSeqLens, assembled, longLens, inside, lens⟩ :=
    aligned.rows tracked (live.mem_iff.mpr List.mem_cons_self) requests
  obtain rfl := Option.some.inj (carried.symm.trans assembled)
  have rids : (ScheduleBatch.rids (T := T) ⟨List.zipWith
      (fun req chain => { req with finished := chain.finished }) tracked.batch.reqs chains,
      List.zipWith (fun seqLen chain => seqLen + chain.acceptLength + 1) tracked.batch.seqLens
        chains, some next⟩) = tracked.batch.rids := by
    apply List.ext_getElem?
    intro position
    by_cases reached : position < tracked.batch.reqs.length
    · simp [ScheduleBatch.rids, List.getElem?_zipWith, List.getElem?_eq_getElem reached,
        List.getElem?_eq_getElem (each.symm ▸ reached : position < chains.length)]
    · have outside := List.getElem?_eq_none (Nat.le_of_not_lt reached)
      simp [ScheduleBatch.rids, List.getElem?_zipWith, outside]
  have sizes : chains.length = (tracked.batch.rids.map state.current).length := by
    simp [ScheduleBatch.rids, each]
  have recomputed := refreshDraftState_assemble sizes rfl rfl rfl refreshed
  have crossLoc : (ScheduleBatch.crossLoc ⟨List.zipWith
      (fun req chain => { req with finished := chain.finished }) tracked.batch.reqs chains,
      List.zipWith (fun seqLen chain => seqLen + chain.acceptLength + 1) tracked.batch.seqLens
        chains, some next⟩) = next.crossLoc := rfl
  rw [rids, crossLoc]
  have records : ((tracked.batch.rids.map state.current).zip chains).mapIdx
      (fun position entry => entry.1.refreshed worker.K entry.2 (replay position)
        ((next.crossLoc.getD position []).drop
          (entry.1.kept worker.K entry.2.acceptLength).length)) =
      (tracked.batch.reqs.zip chains).mapIdx (fun position entry =>
        (state.current entry.1.rid).refreshed worker.K entry.2 (replay position)
          ((next.crossLoc.getD position []).drop
            ((state.current entry.1.rid).kept worker.K entry.2.acceptLength).length)) := by
    rw [ScheduleBatch.rids, List.map_map, List.zip_map_left]
    apply List.ext_getElem?
    intro position
    simp only [List.getElem?_mapIdx, List.getElem?_map, Option.map_map]
    rfl
  rw [records] at recomputed
  have perm := rids_perm [tracked] live
  simp only [List.flatMap_cons, List.flatMap_nil, List.append_nil] at perm
  have distinct := perm.nodup_iff.mp aligned.distinct
  obtain ⟨own, others, apart⟩ := List.nodup_append.mp distinct
  constructor
  · simpa only [SchedulerState.rids, List.flatMap_cons, rids] using distinct
  · intro other member
    rcases List.mem_cons.mp member with rfl | older
    · intro requests'
      refine ⟨_, ?_, ?_, ?_, rfl⟩
      · rw [rids, assign_map state.current own (by simp [ScheduleBatch.rids, each])]
        exact congrArg some recomputed
      · simp [longLens]
      · exact Nat.le_refl _
    · have inState := live.mem_iff.mpr (List.mem_cons_of_mem tracked older)
      refine (aligned.rows other inState).congr (fun rid member => assign_other ?_)
      intro inOwn
      exact apart rid inOwn rid (List.mem_flatMap.mpr ⟨other, older, member⟩) rfl

omit [Zero T] in
theorem filter_aligned {tracked : TrackedBatch T} {chunkedReqToExclude : List Nat}
    {keepIndices : Option (List Nat)} (aligned : Aligned state)
    (live : state.batches.Perm (tracked :: rest)) (distinct : ∀ keep ∈ keepIndices, keep.Nodup)
    (ran : tracked.batch.filterBatch chunkedReqToExclude keepIndices state.pool =
      .ok batch final) :
    Aligned { state with
      pool := final
      batches := ⟨batch, if batch.reqs.length = tracked.batch.reqs.length then tracked.settled
        else keptInPlace tracked.settled
          (keepIndices.getD (tracked.batch.unfinishedIndices chunkedReqToExclude))⟩ :: rest } := by
  have perm := rids_perm [tracked] live
  simp only [List.flatMap_cons, List.flatMap_nil, List.append_nil] at perm
  have apart := perm.nodup_iff.mp aligned.distinct
  have older : ∀ other ∈ rest, Current state.current other := fun other member =>
    aligned.rows other (live.mem_iff.mpr (List.mem_cons_of_mem _ member))
  have before := aligned.rows tracked (live.mem_iff.mpr List.mem_cons_self)
  rcases filterBatch_cases rfl ran with ⟨-, rfl, rfl⟩ | ⟨-, -, rfl, rfl⟩ |
    ⟨some, fewer, insideReqs, insideLens, specInfo, filtered, rfl⟩
  · constructor
    · simpa [SchedulerState.rids, ScheduleBatch.rids] using (List.nodup_append.mp apart).2.1
    · intro other member
      rcases List.mem_cons.mp member with rfl | member
      · intro requests
        exact absurd rfl requests
      · exact older other member
  · constructor
    · simpa [SchedulerState.rids] using apart
    · intro other member
      rcases List.mem_cons.mp member with rfl | member
      · simpa using before
      · exact older other member
  · have distinctKeep : (keepIndices.getD
        (tracked.batch.unfinishedIndices chunkedReqToExclude)).Nodup := by
      cases keepIndices with
      | none => exact unfinishedIndices_nodup _ _
      | some keep => exact distinct keep rfl
    generalize keepIndices.getD (tracked.batch.unfinishedIndices chunkedReqToExclude) = keep at *
    have long : (gather keep tracked.batch.reqs).length = keep.length := gather_length _ _ insideReqs
    have rids : (gather keep tracked.batch.reqs).map Req.rid = gather keep tracked.batch.rids :=
      (gather_map _ _ _).symm
    have insideRids : ∀ row ∈ keep, row < tracked.batch.rids.length := by
      simpa [ScheduleBatch.rids] using insideReqs
    constructor
    · obtain ⟨own, others, disjoint⟩ := List.nodup_append.mp apart
      refine List.nodup_append.mpr ⟨?_, others, ?_⟩
      · simp only [ScheduleBatch.rids, rids]
        exact gather_nodup keep tracked.batch.rids distinctKeep own
      · intro rid member
        simp only [ScheduleBatch.rids, rids] at member
        exact disjoint rid (mem_of_mem_gather _ _ _ member)
    · intro other member
      rcases List.mem_cons.mp member with rfl | member
      · intro requests
        obtain ⟨row, inKeep⟩ := List.exists_mem_of_ne_nil _ some
        have requestsBefore : tracked.batch.reqs ≠ [] :=
          List.ne_nil_of_length_pos (Nat.lt_of_le_of_lt (Nat.zero_le _) (insideReqs row inKeep))
        obtain ⟨newSeqLens, carried, longLens, settledInside, lens⟩ := before requestsBefore
        rw [carried] at filtered
        obtain ⟨next, between, kept, done⟩ := PoolM.bind_ok.mp filtered
        obtain ⟨rfl, rfl⟩ := PoolM.pure_ok.mp done
        obtain ⟨rfl, -, -⟩ := filterBatch_ok kept
        obtain ⟨fewerSettled, inPlace, settledKeep⟩ := keptInPlace_take tracked.settled keep
        simp only [long, fewer, if_false]
        refine ⟨newSeqLens, ?_, ?_, settledKeep, ?_⟩
        · rw [gathered_assemble, gather_map, ← rids]
          rfl
        · rw [gather_length _ _ insideLens]
        · rw [gather_take_inPlace insideLens inPlace]
          have shorter := congrArg (List.take (keptInPlace tracked.settled keep)) lens
          simpa [List.take_take, Nat.min_eq_left fewerSettled] using shorter
      · exact older other member

omit [Zero T] in
theorem merge_aligned {running last : TrackedBatch T} (aligned : Aligned state)
    (live : state.batches.Perm (running :: last :: rest))
    (runningRequests : running.batch.reqs ≠ []) (lastRequests : last.batch.reqs ≠ []) :
    Aligned { state with
      batches := ⟨running.batch.mergeBatch last.batch, running.settled⟩ :: rest } := by
  have perm := rids_perm [running, last] live
  simp only [List.flatMap_cons, List.flatMap_nil, List.append_nil] at perm
  have apart := perm.nodup_iff.mp aligned.distinct
  obtain ⟨newSeqLens, carried, longLens, settledInside, lens⟩ :=
    aligned.rows running (live.mem_iff.mpr (by simp)) runningRequests
  obtain ⟨otherLens, carriedOther, longOther, -, -⟩ :=
    aligned.rows last (live.mem_iff.mpr (by simp)) lastRequests
  constructor
  · simpa [SchedulerState.rids, ScheduleBatch.rids, ScheduleBatch.mergeBatch] using apart
  · intro other member
    rcases List.mem_cons.mp member with rfl | older
    · intro requests
      refine ⟨newSeqLens, ?_, ?_, ?_, ?_⟩
      · simp [ScheduleBatch.mergeBatch, carried, carriedOther, mergeBatch_assemble,
          ScheduleBatch.rids]
      · simp [ScheduleBatch.mergeBatch, longLens, longOther]
      · simp only [ScheduleBatch.mergeBatch, List.length_append]
        omega
      · simp only [ScheduleBatch.mergeBatch]
        rw [List.take_append_of_le_length (by omega), lens]
    · exact aligned.rows other (live.mem_iff.mpr (by simp [older]))

omit [Zero T] in
theorem discard_aligned {empty : TrackedBatch T} (aligned : Aligned state)
    (live : state.batches.Perm (empty :: rest)) : Aligned { state with batches := rest } := by
  have perm := rids_perm [empty] live
  constructor
  · exact (List.nodup_append.mp (perm.nodup_iff.mp aligned.distinct)).2.1
  · intro tracked member
    exact aligned.rows tracked (live.mem_iff.mpr (List.mem_cons_of_mem _ member))

theorem schedulerSystem_aligned {permitted : ScheduleBatch T → List Nat → Prop}
    (reached : (schedulerSystem worker permitted).Reachable state) : Aligned state := by
  refine reached.invariant Aligned ?_ ?_
  · rintro ⟨pool, batches, current⟩ ⟨initialPoolSize, maxPoolSize, created, rfl⟩
    exact ⟨List.nodup_nil, by simp⟩
  · intro state following aligned taken
    cases taken with
    | prefill final prefillAndDraft requests batch new ran => exact prefill_aligned aligned new ran
    | decode final tracked rest live static emitDepths chains each replay batch ran =>
      exact decode_aligned aligned live each ran
    | filter final tracked rest live chunked keepIndices distinct allowed batch ran =>
      exact filter_aligned aligned live distinct ran
    | merge running last rest live runningRequests lastRequests =>
      exact merge_aligned aligned live runningRequests lastRequests
    | discard empty rest live noRequests => exact discard_aligned aligned live

end Steps

/-- A static row that holds the state of a request. -/
def RequestDraft.row (K seqLen : Nat) (old : DraftRow T) (draft : RequestDraft T) : DraftRow T where
  b0Logits := draft.b0Logits
  b0RankLogits := draft.b0RankLogits
  b0Hidden := draft.b0Hidden
  b0InputId := draft.b0InputId
  active := true
  crossLoc := draft.crossLoc.take (persistentCount K draft.crossCount) ++
    old.crossLoc.drop (persistentCount K draft.crossCount)
  crossCount := persistentCount K draft.crossCount
  positionId := (draft.crossPosition : Int) - 1
  seqLen := seqLen
  tttK := draft.tttK
  tttV := draft.tttV

theorem copyRows_self {activeBs : Nat} {source rows : List α} (long : source.length = activeBs)
    (copied : copyRows activeBs source = .ok rows) : rows = source := by
  unfold copyRows at copied
  rw [if_pos long] at copied
  exact (Except.ok.inj copied).symm

/-- The static rows hold the states of the active requests, with the copied lengths. -/
theorem copySpecIntoBuffers_assemble [Zero T] {K cb : Nat} {static rows : List (DraftRow T)}
    {drafts : List (RequestDraft T)} {newSeqLens : List Nat}
    (copied : copySpecIntoBuffers K cb static (SpecBlockDraftInput.assemble drafts newSeqLens)
      drafts.length = .ok rows) :
    ∃ seqLens, copyRows drafts.length (newSeqLens.take drafts.length) = .ok seqLens ∧
      drafts.length ≤ rows.length ∧
      ∀ (position : Nat) (draft : RequestDraft T) (row : DraftRow T),
        drafts[position]? = some draft → rows[position]? = some row →
        ∃ old seqLen, static[position]? = some old ∧ seqLens[position]? = some seqLen ∧
          row = draft.row K seqLen old := by
  simp only [copySpecIntoBuffers, except_bind_ok, SpecBlockDraftInput.assemble, present,
    Except.ok.injEq, exists_eq_left', copySeqLens] at copied
  obtain ⟨-, -, logits, copyLogits, ranks, copyRanks, hidden, copyHidden, ids, copyIds, seqLens,
    copyLens, active, drafted, done⟩ := copied
  obtain rfl := copyRows_self (by simp) copyLogits
  obtain rfl := copyRows_self (by simp) copyRanks
  obtain rfl := copyRows_self (by simp) copyHidden
  obtain rfl := copyRows_self (by simp) copyIds
  obtain rfl := Except.ok.inj done
  have decided := mapM_decided _ _ _ drafted
  have long : active.length = drafts.length := by rw [← decided.length_eq, List.length_range]
  refine ⟨seqLens, copyLens, by simp [long], fun position draft row atDraft atRow => ?_⟩
  obtain ⟨inside, rfl⟩ := List.getElem?_eq_some_iff.mp atDraft
  rw [List.getElem?_append_left (by omega), List.getElem?_eq_getElem (by omega)] at atRow
  obtain rfl := Option.some.inj atRow
  have read := decided.get (by simpa using inside) (by omega : position < active.length)
  simp only [List.get_eq_getElem, List.getElem_range, except_bind_ok, entryAt_ok,
    List.getElem?_map, List.getElem?_eq_getElem inside, Option.map_some, Option.some.injEq,
    exists_eq_left'] at read
  obtain ⟨old, atOld, seqLen, atLen, crossed⟩ := read
  refine ⟨old, seqLen, atOld, atLen, ?_⟩
  unfold copyCross at crossed
  dsimp only at crossed
  split at crossed
  · simp at crossed
  · split at crossed
    · simp at crossed
    · exact (Except.ok.inj crossed).symm

/-- The fields a draft reads are the current states of the listed requests, in order. -/
structure ReadsCurrent (current : Nat → RequestDraft T) (rids : List Nat)
    (info : SpecBlockDraftInput T) : Prop where
  crossLoc : info.crossLoc = rids.map (fun rid => (current rid).crossLoc)
  crossCount : info.crossCount = rids.map (fun rid => (current rid).crossCount)
  crossPosition : info.crossPosition = rids.map (fun rid => (current rid).crossPosition)
  tttK : info.tttK = rids.map (fun rid => (current rid).tttK)
  tttV : info.tttV = rids.map (fun rid => (current rid).tttV)
  b0Logits : info.b0Logits = some (rids.map (fun rid => (current rid).b0Logits))
  b0RankLogits : info.b0RankLogits = some (rids.map (fun rid => (current rid).b0RankLogits))
  b0Hidden : info.b0Hidden = some (rids.map (fun rid => (current rid).b0Hidden))
  b0InputId : info.b0InputId = some (rids.map (fun rid => (current rid).b0InputId))

/-- Whenever a draft runs, what it reads is current for the requests of its batch, in
order; if those have all kept their place since the batch was last prefilled or
refreshed, so are the sequence lengths, each row of the graph's input is that of its
request, and the verified positions are the request's length plus the tree depth. -/
theorem draft_reads_current [Zero T] (worker : SpecBlockWorker) (state : SchedulerState T)
    (reached : (schedulerSystem worker (fun _ _ => True)).Reachable state)
    (tracked : TrackedBatch T) (live : tracked ∈ state.batches) (info : SpecBlockDraftInput T)
    (carried : tracked.batch.specInfo = some info) (static : Nat → Nat → List (DraftRow T))
    (emitDepths : List (DraftRow T) → List (List Nat)) (verifyInfo : SpecBlockVerifyInput T)
    (ran : draft worker static emitDepths info tracked.batch.reqs.length = .ok verifyInfo) :
    ReadsCurrent state.current tracked.batch.rids info ∧
      (tracked.batch.reqs.length ≤ tracked.settled →
        (info.newSeqLens.map (List.take tracked.batch.reqs.length) = some tracked.batch.seqLens) ∧
        ∃ (bucket : Nat × Nat) (rows : List (DraftRow T)),
          copySpecIntoBuffers worker.K bucket.2 (static bucket.1 bucket.2) info
            tracked.batch.reqs.length = .ok rows ∧
          (∀ (position : Nat) (req : Req) (row : DraftRow T),
            tracked.batch.reqs[position]? = some req → rows[position]? = some row →
            ∃ old seqLen, (static bucket.1 bucket.2)[position]? = some old ∧
              tracked.batch.seqLens[position]? = some seqLen ∧
              row = (state.current req.rid).row worker.K seqLen old) ∧
          verifyInfo.positions = List.zipWith (fun seqLen depths => depths.map (seqLen + ·))
            tracked.batch.seqLens (emitDepths rows)) := by
  have aligned := schedulerSystem_aligned reached
  obtain ⟨bucket, rows, -, copied, rfl⟩ := draft_ok ran
  obtain ⟨done, required, -⟩ := except_bind_ok.mp copied
  have requests : tracked.batch.reqs ≠ [] :=
    List.ne_nil_of_length_pos (requireAligned_ok required).1
  obtain ⟨newSeqLens, assembled, longLens, -, lens⟩ := aligned.rows tracked live requests
  obtain rfl := Option.some.inj (carried.symm.trans assembled)
  refine ⟨?_, fun settled => ?_⟩
  · constructor
    all_goals simp [SpecBlockDraftInput.assemble, Function.comp_def]
  · have size : (tracked.batch.rids.map state.current).length = tracked.batch.reqs.length := by
      simp [ScheduleBatch.rids]
    have current : newSeqLens.take tracked.batch.reqs.length = tracked.batch.seqLens := by
      have shorter := congrArg (List.take tracked.batch.reqs.length) lens
      simpa [List.take_take, Nat.min_eq_left settled, List.take_of_length_le
        (Nat.le_of_eq longLens)] using shorter
    rw [← size] at copied
    obtain ⟨seqLens, copyLens, long, row⟩ := copySpecIntoBuffers_assemble copied
    rw [size, current] at copyLens
    obtain rfl := copyRows_self longLens copyLens
    rw [size] at copied long
    have atRow : ∀ (position : Nat) (req : Req) (row : DraftRow T),
        tracked.batch.reqs[position]? = some req → rows[position]? = some row →
        ∃ old seqLen, (static bucket.1 bucket.2)[position]? = some old ∧
          tracked.batch.seqLens[position]? = some seqLen ∧
          row = (state.current req.rid).row worker.K seqLen old := fun position req read atReq =>
      row position _ read (by simp [ScheduleBatch.rids, atReq])
    refine ⟨congrArg some current, bucket, rows, copied, atRow, ?_⟩
    have rowLens : (rows.take tracked.batch.reqs.length).map DraftRow.seqLen =
        tracked.batch.seqLens := by
      apply List.ext_getElem?
      intro position
      by_cases inside : position < tracked.batch.reqs.length
      · have here := List.getElem?_eq_getElem (Nat.lt_of_lt_of_le inside long)
        obtain ⟨old, seqLen, -, atLen, same⟩ :=
          atRow position _ _ (List.getElem?_eq_getElem inside) here
        rw [List.getElem?_map, List.getElem?_take_of_lt inside, here, atLen, Option.map_some, same]
        rfl
      · rw [List.getElem?_eq_none (by simp; omega), List.getElem?_eq_none (by omega)]
    simp only
    rw [← rowLens, List.zipWith_map_left]

/-- The chains of the small round, where the first request goes on and the second stops. -/
def keptChains : List (AcceptedChain Nat) :=
  smallChains.map (fun chain => { chain with finished := !chain.finished })

/-- A draft after a round and a filter that keeps the first of two requests reads that request's length. -/
theorem draft_reads_current_small :
    ∃ (state : SchedulerState Nat) (tracked : TrackedBatch Nat) (info : SpecBlockDraftInput Nat)
      (verifyInfo : SpecBlockVerifyInput Nat),
      (schedulerSystem smallWorker (fun _ _ => True)).Reachable state ∧
        state.batches = [tracked] ∧ tracked.batch.rids = [0] ∧ tracked.batch.specInfo = some info ∧
        draft smallWorker blankRows (fun _ => [[0, 1]]) info 1 = .ok verifyInfo ∧
        ReadsCurrent state.current tracked.batch.rids info ∧ info.newSeqLens = some [3, 2] ∧
        info.newSeqLens.map (List.take 1) = some tracked.batch.seqLens := by
  have created : (schedulerSystem (T := Nat) smallWorker (fun _ _ => True)).Reachable
      smallStart := .start _ ⟨12, 12, rfl, rfl⟩
  have prefilled := created.step _ _ (.prefill _ _ smallPrefill smallRequests _ (by decide) rfl)
  have decoded := prefilled.step _ _ (.decode _ _ _ [] (List.Perm.refl _) blankRows
    (fun _ => [[0, 1], [0]]) keptChains rfl zeroReplay _ rfl)
  have filtered := decoded.step _ _ (.filter _ _ _ [] (List.Perm.refl _) [] none (by simp) trivial
    _ rfl)
  have reads := draft_reads_current smallWorker _ filtered _ (List.mem_singleton.mpr rfl) _ rfl
    blankRows (fun _ => [[0, 1]]) _ rfl
  exact ⟨_, _, _, _, filtered, rfl, rfl, rfl, rfl, reads.1, rfl, (reads.2 (by decide)).1⟩

/-- After the first of two requests is filtered out, the second is drafted at the
positions of the first. -/
theorem draft_reads_stale_lengths :
    ∃ (state : SchedulerState Nat) (tracked : TrackedBatch Nat) (info : SpecBlockDraftInput Nat)
      (verifyInfo : SpecBlockVerifyInput Nat),
      (schedulerSystem smallWorker (fun _ _ => True)).Reachable state ∧
        state.batches = [tracked] ∧ tracked.batch.rids = [1] ∧ tracked.batch.specInfo = some info ∧
        draft smallWorker blankRows (fun _ => [[0, 1]]) info 1 = .ok verifyInfo ∧
        tracked.batch.seqLens = [2] ∧ info.newSeqLens = some [3, 2] ∧
        verifyInfo.positions = [[3, 4]] ∧
        verifyInfo.positions ≠ List.zipWith (fun seqLen depths => depths.map (seqLen + ·))
          tracked.batch.seqLens [[0, 1]] := by
  have created : (schedulerSystem (T := Nat) smallWorker (fun _ _ => True)).Reachable
      smallStart := .start _ ⟨12, 12, rfl, rfl⟩
  have prefilled := created.step _ _ (.prefill _ _ smallPrefill smallRequests _ (by decide) rfl)
  have decoded := prefilled.step _ _ (.decode _ _ _ [] (List.Perm.refl _) blankRows
    (fun _ => [[0, 1], [0]]) smallChains rfl zeroReplay _ rfl)
  have filtered := decoded.step _ _ (.filter _ _ _ [] (List.Perm.refl _) [] none (by simp) trivial
    _ rfl)
  exact ⟨_, _, _, _, filtered, rfl, rfl, rfl, rfl, rfl, rfl, rfl, by decide⟩

end SpecBlock.Serving
