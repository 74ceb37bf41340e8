import SpecBlock.Foundation.Runs
import SpecBlock.Serving.Worker

/-!
# Exclusive ownership of cross slots

Every operation on the draft state of a batch is an entry in the pool's ledger:
prefill and refresh allocate, the rollback and the filter return, drafting hands
the slots over and merging lists them together. Along any run of these operations
each slot but the sentinel is therefore free or held by one request, once.
-/

namespace SpecBlock.Serving

open Rows

variable {T α : Type}

section Prefill

variable {prefillAndDraft : DraftPrefill T}

theorem prefillRequests_ledger {extendLens : List Nat} {hidden : List T}
    {inputIds nextTokenIds : List Nat} {rows : List (RequestDraft T)}
    {pool final : SpecBlockKVPool}
    (ran : prefillRequests prefillAndDraft extendLens hidden inputIds nextTokenIds pool =
      .ok rows final) :
    Ledger pool.slots final.slots [] (rows.map RequestDraft.crossLoc).flatten ∧
      ∀ row ∈ rows, row.crossCount = row.crossLoc.length := by
  induction extendLens generalizing hidden inputIds nextTokenIds rows pool with
  | nil =>
    obtain ⟨rfl, rfl⟩ := PoolM.pure_ok.mp ran
    exact ⟨Ledger.refl _ _, by simp⟩
  | cons extendLen extendLens ih =>
    cases nextTokenIds with
    | nil => exact (PoolM.throw_ok.mp ran).elim
    | cons firstToken nextTokenIds =>
      unfold prefillRequests at ran
      cases last : (hidden.take extendLen).getLast? with
      | none =>
        rw [last] at ran
        exact (PoolM.throw_ok.mp ran).elim
      | some lastHidden =>
        rw [last] at ran
        obtain ⟨loc, between, allocated, ran⟩ := PoolM.bind_ok.mp ran
        obtain ⟨others, after, following, done⟩ := PoolM.bind_ok.mp ran
        obtain ⟨rfl, rfl⟩ := PoolM.pure_ok.mp done
        obtain ⟨first, exactly⟩ := SpecBlockKVPool.alloc_ledger allocated
        obtain ⟨rest, counted⟩ := ih following
        refine ⟨?_, ?_⟩
        · have both := first.trans (rest.frame loc)
          exact both.reorder (List.Perm.refl _) List.perm_append_comm
        · intro row member
          rcases List.mem_cons.mp member with rfl | member
          · exact exactly.symm
          · exact counted row member

end Prefill

section Refresh

/-- The rollback returns what it takes off the requests, and keeps counts exact. -/
theorem rollbackRejected_ledger {K request : Nat} {accepts : List Nat}
    {locs : List (List Nat)} {counts : List Nat} {rolled : List (List Nat) × List Nat}
    {pool final : SpecBlockKVPool} (real : 0 ∉ locs.flatten)
    (counted : counts = locs.map List.length)
    (ran : rollbackRejected K request accepts locs counts pool = .ok rolled final) :
    Ledger pool.slots final.slots locs.flatten rolled.1.flatten ∧
      rolled.2 = rolled.1.map List.length ∧ rolled.1.length = locs.length := by
  induction accepts generalizing request locs counts rolled pool with
  | nil =>
    obtain ⟨rfl, rfl⟩ := PoolM.pure_ok.mp ran
    exact ⟨Ledger.refl _ _, counted, rfl⟩
  | cons acceptLen accepts ih =>
    subst counted
    cases locs with
    | nil => exact (PoolM.throw_ok.mp ran).elim
    | cons loc locs =>
      have realRest : 0 ∉ locs.flatten := fun member => real (List.mem_append_right loc member)
      simp only [List.map_cons] at ran
      unfold rollbackRejected at ran
      split at ran
      · obtain ⟨rest, between, following, done⟩ := PoolM.bind_ok.mp ran
        obtain ⟨rfl, rfl⟩ := PoolM.pure_ok.mp done
        obtain ⟨moved, exactly, long⟩ := ih realRest rfl following
        refine ⟨?_, by simp [exactly], by simp [long]⟩
        exact (moved.frame loc).reorder List.perm_append_comm List.perm_append_comm
      · split at ran
        · exact (PoolM.throw_ok.mp ran).elim
        next enough =>
          obtain ⟨done, between, released, ran⟩ := PoolM.bind_ok.mp ran
          obtain ⟨rest, after, following, done⟩ := PoolM.bind_ok.mp ran
          obtain ⟨rfl, rfl⟩ := PoolM.pure_ok.mp done
          obtain ⟨moved, exactly, long⟩ := ih realRest rfl following
          have realLast : 0 ∉ loc.drop (loc.length - K) := fun member =>
            real (by simp [List.mem_of_mem_drop member])
          have returned := (SpecBlockKVPool.release_ledger realLast released).frame
            (loc.take (loc.length - K) ++ locs.flatten)
          refine ⟨?_, ?_, by simp [long]⟩
          · have split : (loc.drop (loc.length - K) ++
                (loc.take (loc.length - K) ++ locs.flatten)).Perm (loc :: locs).flatten := by
              rw [← List.append_assoc, List.flatten_cons]
              apply List.Perm.append_right
              exact List.perm_append_comm.trans (by rw [List.take_append_drop])
            have kept := moved.frame (loc.take (loc.length - K))
            exact (returned.reorder split (List.Perm.refl _)).trans
              (kept.reorder List.perm_append_comm List.perm_append_comm)
          · simp [exactly]

/-- The allocation of the chains takes as many slots as each chain needs. -/
theorem allocEach_ledger {K : Nat} {ns : List Nat} {locs : List (List Nat)}
    {pool final : SpecBlockKVPool} (ran : allocEach K ns pool = .ok locs final) :
    Ledger pool.slots final.slots [] locs.flatten ∧ locs.map List.length = ns.map (· * K) := by
  induction ns generalizing locs pool with
  | nil =>
    obtain ⟨rfl, rfl⟩ := PoolM.pure_ok.mp ran
    exact ⟨Ledger.refl _ _, rfl⟩
  | cons n ns ih =>
    obtain ⟨loc, between, allocated, ran⟩ := PoolM.bind_ok.mp ran
    obtain ⟨others, after, following, done⟩ := PoolM.bind_ok.mp ran
    obtain ⟨rfl, rfl⟩ := PoolM.pure_ok.mp done
    obtain ⟨first, exactly⟩ := SpecBlockKVPool.alloc_ledger allocated
    obtain ⟨rest, others⟩ := ih following
    refine ⟨?_, by simp [exactly, others]⟩
    exact (first.trans (rest.frame loc)).reorder (List.Perm.refl _) List.perm_append_comm

/-- The contribution of one request after a successful refresh. -/
theorem refreshRows_row {K : Nat} {verifiedId : List Nat} {verifiedHidden : List T}
    {accepts positions counts : List Nat} {locs newIndices : List (List Nat)}
    {replay : Nat → RefreshReplay T} {rows : List (RequestDraft T)}
    (ran : refreshRows K verifiedId verifiedHidden accepts positions locs newIndices counts replay =
      .ok rows) :
    rows.length = accepts.length ∧ ∀ (request : Nat) (acceptLen : Nat),
      accepts[request]? = some acceptLen →
      ∃ (hiddenState : T) (token position : Nat) (loc new : List Nat) (count : Nat),
        chainTail verifiedHidden (accepts.map (· + 1)) request = .ok hiddenState ∧
        chainTail verifiedId (accepts.map (· + 1)) request = .ok token ∧
        positions[request]? = some position ∧ locs[request]? = some loc ∧
        newIndices[request]? = some new ∧ counts[request]? = some count ∧
        rows[request]? = some {
          hiddenState
          verifiedId := token
          acceptLength := acceptLen
          crossLoc := loc ++ new
          crossCount := count + (acceptLen + 1) * K
          crossPosition := if acceptLen = 0 then position else position + 1 + (acceptLen + 1)
          tttK := (replay request).tttK
          tttV := (replay request).tttV
          b0Logits := (replay request).logits
          b0Hidden := (replay request).hidden
          b0InputId := token
          b0RankLogits := (replay request).rank
          b0TopIndices := (replay request).topIndices } := by
  have decided := mapM_decided _ _ _ ran
  have long : rows.length = accepts.length := by
    rw [← decided.length_eq, List.length_range]
  refine ⟨long, fun request acceptLen accepted => ?_⟩
  have inside : request < accepts.length := (List.getElem?_eq_some_iff.mp accepted).1
  have row := decided.get (by simpa using inside) (by omega : request < rows.length)
  simp only [List.get_eq_getElem, List.getElem_range, except_bind_ok, entryAt_ok] at row
  obtain ⟨acceptRead, readAccept, position, atPosition, hiddenState, tail, token, tailToken, loc,
    atLoc, new, atNew, count, atCount, token', tailToken', same⟩ := row
  have sameAccept : acceptLen = acceptRead := Option.some.inj (accepted.symm.trans readAccept)
  have sameToken : token = token' := Except.ok.inj (tailToken.symm.trans tailToken')
  subst sameAccept sameToken
  refine ⟨hiddenState, token, position, loc, new, count, tail, tailToken, atPosition, atLoc, atNew,
    atCount, ?_⟩
  rw [List.getElem?_eq_getElem (by omega : request < rows.length)]
  exact congrArg some (Except.ok.inj same).symm

theorem zipWith_append_perm (locs new : List (List α)) (long : locs.length = new.length) :
    (List.zipWith (· ++ ·) locs new).flatten.Perm (locs.flatten ++ new.flatten) := by
  induction locs generalizing new with
  | nil => simp [List.length_eq_zero_iff.mp long.symm]
  | cons loc locs ih =>
    cases new with
    | nil => simp at long
    | cons added new =>
      simp only [List.zipWith_cons_cons, List.flatten_cons, List.append_assoc]
      apply List.Perm.append_left
      have rest := (ih new (by simpa using long)).append_left added
      refine rest.trans ?_
      rw [← List.append_assoc, ← List.append_assoc]
      exact List.perm_append_comm.append_right _

theorem refreshDraftState_ok {worker : SpecBlockWorker} {info : SpecBlockVerifyInput T}
    {verifiedId : List Nat} {verifiedHidden : List T} {accepts : List Nat}
    {replay : Nat → RefreshReplay T} {seqLens : List Nat} {result : SpecBlockDraftInput T}
    {pool final : SpecBlockKVPool}
    (ran : refreshDraftState worker info verifiedId verifiedHidden accepts replay seqLens pool =
      .ok result final) :
    ∃ (rolled : List (List Nat) × List Nat) (between : SpecBlockKVPool)
      (newIndices : List (List Nat)) (rows : List (RequestDraft T)),
      rollbackRejected worker.K 0 accepts info.crossLoc info.crossCount pool =
        .ok rolled between ∧
      allocEach worker.K (accepts.map (· + 1)) between = .ok newIndices final ∧
      refreshRows worker.K verifiedId verifiedHidden accepts info.crossPosition rolled.1 newIndices
        rolled.2 replay = .ok rows ∧
      result = SpecBlockDraftInput.assemble rows seqLens := by
  obtain ⟨rolled, between, rollback, ran⟩ := PoolM.bind_ok.mp ran
  obtain ⟨done, after, required, ran⟩ := PoolM.bind_ok.mp ran
  obtain ⟨-, rfl⟩ := ofExcept_ok.mp required
  obtain ⟨newIndices, later, allocated, ran⟩ := PoolM.bind_ok.mp ran
  obtain ⟨rows, last, computed, ran⟩ := PoolM.bind_ok.mp ran
  obtain ⟨rfl, rfl⟩ := PoolM.pure_ok.mp ran
  obtain ⟨assembled, rfl⟩ := ofExcept_ok.mp computed
  exact ⟨rolled, _, newIndices, rows, rollback, allocated, assembled, rfl⟩

/-- The refresh is one entry in the ledger: failed blocks go back, accepted chains
are allocated, and every count stays the number of slots. -/
theorem refreshDraftState_ledger {worker : SpecBlockWorker} {info : SpecBlockVerifyInput T}
    {verifiedId : List Nat} {verifiedHidden : List T} {accepts : List Nat}
    {replay : Nat → RefreshReplay T} {seqLens : List Nat} {result : SpecBlockDraftInput T}
    {pool final : SpecBlockKVPool} (real : 0 ∉ info.crossLoc.flatten)
    (counted : info.crossCount = info.crossLoc.map List.length)
    (each : accepts.length = info.crossLoc.length)
    (ran : refreshDraftState worker info verifiedId verifiedHidden accepts replay seqLens pool =
      .ok result final) :
    Ledger pool.slots final.slots info.crossLoc.flatten result.crossLoc.flatten ∧
      result.crossCount = result.crossLoc.map List.length ∧ result.kvPool = true := by
  obtain ⟨rolled, between, newIndices, rows, rollback, allocated, assembled, rfl⟩ :=
    refreshDraftState_ok ran
  obtain ⟨returned, exactly, long⟩ := rollbackRejected_ledger real counted rollback
  obtain ⟨taken, sizes⟩ := allocEach_ledger allocated
  obtain ⟨rowsLong, row⟩ := refreshRows_row assembled
  have newLong : newIndices.length = accepts.length := by
    have := congrArg List.length sizes
    simpa using this
  have locs : rows.map RequestDraft.crossLoc = List.zipWith (· ++ ·) rolled.1 newIndices := by
    apply List.ext_getElem?
    intro request
    by_cases inside : request < accepts.length
    · obtain ⟨hiddenState, token, position, loc, new, count, -, -, -, atLoc, atNew, -, here⟩ :=
        row request accepts[request] (List.getElem?_eq_getElem inside)
      simp [here, List.getElem?_zipWith, atLoc, atNew]
    · rw [List.getElem?_eq_none (by simp; omega), List.getElem?_eq_none (by simp; omega)]
  refine ⟨?_, ?_, rfl⟩
  · have both : Ledger pool.slots final.slots info.crossLoc.flatten
        (rolled.1.flatten ++ newIndices.flatten) :=
      (returned.trans (taken.frame rolled.1.flatten)).reorder (List.Perm.refl _)
        List.perm_append_comm
    have listed := zipWith_append_perm rolled.1 newIndices (by omega)
    exact both.reorder (List.Perm.refl _) ((List.Perm.of_eq (congrArg List.flatten locs)).trans
      listed).symm
  · apply List.ext_getElem?
    intro request
    by_cases inside : request < accepts.length
    · obtain ⟨hiddenState, token, position, loc, new, count, -, -, -, atLoc, atNew, atCount, here⟩ :=
        row request accepts[request] (List.getElem?_eq_getElem inside)
      have sized := congrArg (fun lengths => lengths[request]?) sizes
      have countIs : count = loc.length := by
        have read := atCount
        rw [exactly, List.getElem?_map, atLoc] at read
        exact (Option.some.inj read).symm
      have newIs : new.length = (accepts[request] + 1) * worker.K := by
        simpa [atNew, List.getElem?_eq_getElem inside] using sized
      simp [SpecBlockDraftInput.assemble, here, countIs, newIs]
    · have outside : rows[request]? = none := List.getElem?_eq_none (by omega)
      simp [SpecBlockDraftInput.assemble, outside]

end Refresh

theorem draft_owned [Zero T] {worker : SpecBlockWorker} {static : Nat → Nat → List (DraftRow T)}
    {emitDepths : List (DraftRow T) → List (List Nat)} {info : SpecBlockDraftInput T}
    {batchSize : Nat} {result : SpecBlockVerifyInput T}
    (ran : draft worker static emitDepths info batchSize = .ok result) :
    result.crossLoc = info.crossLoc ∧ result.crossCount = info.crossCount := by
  obtain ⟨bucket, rows, -, -, rfl⟩ := draft_ok ran
  exact ⟨rfl, rfl⟩

/-- The filter returns the slots of exactly the requests it drops. -/
theorem filterBatch_ledger {keep : List Nat} {info result : SpecBlockDraftInput T}
    {pool final : SpecBlockKVPool} (real : 0 ∉ info.crossLoc.flatten) (attached : info.kvPool = true)
    (distinct : keep.Nodup) (ran : info.filterBatch keep pool = .ok result final) :
    Ledger pool.slots final.slots info.crossLoc.flatten result.crossLoc.flatten := by
  obtain ⟨rfl, released, inside⟩ := filterBatch_ok ran
  simp only [attached, if_true] at released
  by_cases some : info.crossLoc = []
  · have none : dropped keep info.crossLoc = [] := by simp [dropped, some, gather]
    rw [none] at released
    obtain ⟨-, rfl⟩ := PoolM.pure_ok.mp released
    simpa [SpecBlockDraftInput.gathered, some, gather] using Ledger.refl pool.slots []
  · have split := (dropped_gather_perm distinct (inside some)).flatten
    rw [List.flatten_append] at split
    have realDropped : 0 ∉ (dropped keep info.crossLoc).flatten := fun member =>
      real (split.mem_iff.mp (List.mem_append_left _ member))
    exact ((releaseEach_ledger realDropped released).frame _).reorder split (List.Perm.refl _)

/-- Draft state of a live batch, on either side of the draft. -/
inductive SpecInfo (T : Type)
  | draft (info : SpecBlockDraftInput T)
  | verify (info : SpecBlockVerifyInput T)

/-- Slots of each request of a batch. -/
def SpecInfo.crossLoc : SpecInfo T → List (List Nat)
  | .draft info => info.crossLoc
  | .verify info => info.crossLoc

/-- The count each request of a batch records. -/
def SpecInfo.crossCount : SpecInfo T → List Nat
  | .draft info => info.crossCount
  | .verify info => info.crossCount

/-- The pool and the draft states of the live batches, in no particular order. -/
structure CrossState (T : Type) where
  pool : SpecBlockKVPool
  infos : List (SpecInfo T)

/-- Slots of every live request. -/
def CrossState.held (state : CrossState T) : List (List Nat) :=
  state.infos.flatMap SpecInfo.crossLoc

/-- Operations of the worker and of the scheduler on the draft states. -/
inductive CrossStep [Zero T] (worker : SpecBlockWorker) : CrossState T → CrossState T → Prop
  | prefill (pool final : SpecBlockKVPool) (infos : List (SpecInfo T))
      (prefillAndDraft : DraftPrefill T) (extendLens : List Nat) (hidden : List T)
      (inputIds nextTokenIds seqLens : List Nat) (result : SpecBlockDraftInput T)
      (ran : forwardDraftExtend prefillAndDraft extendLens hidden inputIds nextTokenIds seqLens
        pool = .ok result final) :
      CrossStep worker ⟨pool, infos⟩ ⟨final, .draft result :: infos⟩
  | draft (pool : SpecBlockKVPool) (infos rest : List (SpecInfo T))
      (info : SpecBlockDraftInput T) (live : infos.Perm (.draft info :: rest))
      (static : Nat → Nat → List (DraftRow T))
      (emitDepths : List (DraftRow T) → List (List Nat)) (batchSize : Nat)
      (result : SpecBlockVerifyInput T)
      (ran : Serving.draft worker static emitDepths info batchSize = .ok result) :
      CrossStep worker ⟨pool, infos⟩ ⟨pool, .verify result :: rest⟩
  | refresh (pool final : SpecBlockKVPool) (infos rest : List (SpecInfo T))
      (info : SpecBlockVerifyInput T) (live : infos.Perm (.verify info :: rest))
      (verifiedId : List Nat) (verifiedHidden : List T) (accepts : List Nat)
      (each : accepts.length = info.crossLoc.length)
      (replay : Nat → RefreshReplay T) (seqLens : List Nat) (result : SpecBlockDraftInput T)
      (ran : refreshDraftState worker info verifiedId verifiedHidden accepts replay seqLens pool =
        .ok result final) :
      CrossStep worker ⟨pool, infos⟩ ⟨final, .draft result :: rest⟩
  | filter (pool final : SpecBlockKVPool) (infos rest : List (SpecInfo T))
      (info : SpecBlockDraftInput T) (live : infos.Perm (.draft info :: rest))
      (keep : List Nat) (distinct : keep.Nodup) (result : SpecBlockDraftInput T)
      (ran : info.filterBatch keep pool = .ok result final) :
      CrossStep worker ⟨pool, infos⟩ ⟨final, .draft result :: rest⟩
  | merge (pool : SpecBlockKVPool) (infos rest : List (SpecInfo T))
      (info other : SpecBlockDraftInput T)
      (live : infos.Perm (.draft info :: .draft other :: rest)) :
      CrossStep worker ⟨pool, infos⟩ ⟨pool, .draft (info.mergeBatch other) :: rest⟩

/-- Runs that start with a new pool and no requests. -/
def crossSystem [Zero T] (worker : SpecBlockWorker) : System (CrossState T) where
  start := fun state => ∃ initialPoolSize maxPoolSize,
    SpecBlockKVPool.create initialPoolSize maxPoolSize = .ok state.pool ∧ state.infos = []
  step := CrossStep worker

/-- The invariant of runs: the pool is whole with respect to the live requests, whose
counts are exact and which know their pool. -/
structure Owned (state : CrossState T) : Prop where
  whole : Whole state.pool.slots state.held
  counted : ∀ info ∈ state.infos, info.crossCount = info.crossLoc.map List.length
  attached : ∀ info : SpecBlockDraftInput T, .draft info ∈ state.infos → info.kvPool = true

theorem Owned.real {state : CrossState T} (owned : Owned state) : 0 ∉ state.held.flatten := by
  intro member
  obtain ⟨holder, inHeld, inHolder⟩ := List.mem_flatten.mp member
  have := (owned.whole.covered 0).mp (.inr ⟨holder, inHeld, inHolder⟩)
  omega

theorem Owned.real_of_mem {state : CrossState T} (owned : Owned state) {info : SpecInfo T}
    (live : info ∈ state.infos) : 0 ∉ info.crossLoc.flatten := by
  intro member
  obtain ⟨holder, inInfo, inHolder⟩ := List.mem_flatten.mp member
  refine owned.real (List.mem_flatten.mpr ⟨holder, ?_, inHolder⟩)
  exact List.mem_flatMap.mpr ⟨info, live, inInfo⟩

/-- Replacing some live batches along a ledger entry keeps the invariant. -/
theorem Owned.replace {pool final : SpecBlockKVPool} {infos rest : List (SpecInfo T)}
    (owned : Owned ⟨pool, infos⟩) (old new : List (SpecInfo T)) (live : infos.Perm (old ++ rest))
    (moved : Ledger pool.slots final.slots (old.flatMap SpecInfo.crossLoc).flatten
      (new.flatMap SpecInfo.crossLoc).flatten)
    (counted : ∀ info ∈ new, info.crossCount = info.crossLoc.map List.length)
    (attached : ∀ info : SpecBlockDraftInput T, .draft info ∈ new → info.kvPool = true) :
    Owned ⟨final, new ++ rest⟩ := by
  constructor
  · apply owned.whole.entry
    have before : ((old.flatMap SpecInfo.crossLoc).flatten ++
        (rest.flatMap SpecInfo.crossLoc).flatten).Perm
          (CrossState.held ⟨pool, infos⟩).flatten := by
      rw [← List.flatten_append, ← List.flatMap_append]
      exact (live.symm.flatMap_right _).flatten
    have after : ((new.flatMap SpecInfo.crossLoc).flatten ++
        (rest.flatMap SpecInfo.crossLoc).flatten).Perm
          (CrossState.held ⟨final, new ++ rest⟩).flatten := by
      rw [← List.flatten_append, ← List.flatMap_append]
      exact List.Perm.refl _
    exact (moved.frame _).reorder before after
  · intro info member
    rcases List.mem_append.mp member with inNew | inRest
    · exact counted info inNew
    · exact owned.counted info (live.mem_iff.mpr (List.mem_append_right old inRest))
  · intro info member
    rcases List.mem_append.mp member with inNew | inRest
    · exact attached info inNew
    · exact owned.attached info (live.mem_iff.mpr (List.mem_append_right old inRest))

theorem crossStep_owned [Zero T] {worker : SpecBlockWorker} {state following : CrossState T}
    (owned : Owned state) (taken : CrossStep worker state following) : Owned following := by
  cases taken with
  | prefill pool final infos prefillAndDraft extendLens hidden inputIds nextTokenIds seqLens result
      ran =>
    obtain ⟨rows, between, prefilled, done⟩ := PoolM.bind_ok.mp ran
    obtain ⟨rfl, rfl⟩ := PoolM.pure_ok.mp done
    obtain ⟨moved, exactly⟩ := prefillRequests_ledger prefilled
    refine owned.replace [] [_] (List.Perm.refl _) ?_ ?_ ?_
    · simpa [SpecInfo.crossLoc, SpecBlockDraftInput.assemble] using moved
    · intro info member
      obtain rfl := List.mem_singleton.mp member
      simpa [SpecInfo.crossLoc, SpecInfo.crossCount, SpecBlockDraftInput.assemble] using exactly
    · intro info member
      obtain rfl := SpecInfo.draft.inj (List.mem_singleton.mp member)
      rfl
  | draft pool infos rest info live static emitDepths batchSize result ran =>
    obtain ⟨sameLoc, sameCount⟩ := draft_owned ran
    have member : SpecInfo.draft info ∈ infos := live.mem_iff.mpr List.mem_cons_self
    refine owned.replace [_] [_] live ?_ ?_ ?_
    · simpa [SpecInfo.crossLoc, sameLoc] using Ledger.refl pool.slots info.crossLoc.flatten
    · intro other inNew
      obtain rfl := List.mem_singleton.mp inNew
      simpa [SpecInfo.crossLoc, SpecInfo.crossCount, sameLoc, sameCount] using
        owned.counted _ member
    · intro other inNew
      simp at inNew
  | refresh pool final infos rest info live verifiedId verifiedHidden accepts each replay seqLens
      result ran =>
    have member : SpecInfo.verify info ∈ infos := live.mem_iff.mpr List.mem_cons_self
    obtain ⟨moved, exactly, wired⟩ := refreshDraftState_ledger (owned.real_of_mem member)
      (owned.counted _ member) each ran
    refine owned.replace [_] [_] live ?_ ?_ ?_
    · simpa [SpecInfo.crossLoc] using moved
    · intro other inNew
      obtain rfl := List.mem_singleton.mp inNew
      exact exactly
    · intro other inNew
      obtain rfl := SpecInfo.draft.inj (List.mem_singleton.mp inNew)
      exact wired
  | filter pool final infos rest info live keep distinct result ran =>
    have member : SpecInfo.draft info ∈ infos := live.mem_iff.mpr List.mem_cons_self
    have wired := owned.attached info member
    have moved := filterBatch_ledger (owned.real_of_mem member) wired distinct ran
    obtain ⟨rfl, -, -⟩ := filterBatch_ok ran
    refine owned.replace [_] [_] live ?_ ?_ ?_
    · simpa [SpecInfo.crossLoc] using moved
    · intro other inNew
      obtain rfl := List.mem_singleton.mp inNew
      have exactly : info.crossCount = info.crossLoc.map List.length := owned.counted _ member
      simp [SpecInfo.crossLoc, SpecInfo.crossCount, SpecBlockDraftInput.gathered, exactly,
        gather_map]
    · intro other inNew
      obtain rfl := SpecInfo.draft.inj (List.mem_singleton.mp inNew)
      exact wired
  | merge pool infos rest info other live =>
    have member : SpecInfo.draft info ∈ infos := live.mem_iff.mpr (by simp)
    have memberOther : SpecInfo.draft other ∈ infos := live.mem_iff.mpr (by simp)
    refine owned.replace [_, _] [_] live ?_ ?_ ?_
    · simpa [SpecInfo.crossLoc, SpecBlockDraftInput.mergeBatch] using
        Ledger.refl pool.slots (info.crossLoc.flatten ++ other.crossLoc.flatten)
    · intro merged inNew
      obtain rfl := List.mem_singleton.mp inNew
      have exactly : info.crossCount = info.crossLoc.map List.length := owned.counted _ member
      have exactlyOther : other.crossCount = other.crossLoc.map List.length :=
        owned.counted _ memberOther
      simp [SpecInfo.crossLoc, SpecInfo.crossCount, SpecBlockDraftInput.mergeBatch, exactly,
        exactlyOther]
    · intro merged inNew
      obtain rfl := SpecInfo.draft.inj (List.mem_singleton.mp inNew)
      simp [SpecBlockDraftInput.mergeBatch, owned.attached info member]

theorem crossSystem_owned [Zero T] {worker : SpecBlockWorker} {state : CrossState T}
    (reached : (crossSystem worker).Reachable state) : Owned state := by
  refine reached.invariant Owned ?_ (fun _ _ owned taken => crossStep_owned owned taken)
  rintro ⟨pool, infos⟩ ⟨initialPoolSize, maxPoolSize, created, rfl⟩
  exact ⟨SpecBlockKVPool.create_whole created, by simp, by simp⟩

/-- Along any run without a raise, each slot but the sentinel is on the free list or
held by one live request, once; requests record how many they hold. -/
theorem crossSlots_exclusive [Zero T] (worker : SpecBlockWorker) (state : CrossState T)
    (reached : (crossSystem worker).Reachable state) :
    state.pool.free.Nodup ∧
      (0 ∉ state.pool.free ∧ ∀ loc ∈ state.held, 0 ∉ loc) ∧
      state.held.Pairwise List.Disjoint ∧
      (∀ loc ∈ state.held, loc.Disjoint state.pool.free ∧ loc.Nodup) ∧
      (∀ info ∈ state.infos, info.crossCount = info.crossLoc.map List.length) ∧
      ∀ slot, (slot ∈ state.pool.free ∨ ∃ loc ∈ state.held, slot ∈ loc) ↔
        1 ≤ slot ∧ slot ≤ state.pool.poolSize - 1 := by
  have owned := crossSystem_owned reached
  have covered := owned.whole.covered
  refine ⟨owned.whole.free_nodup, ⟨fun free => ?_, fun loc held inside => ?_⟩,
    owned.whole.holders_disjoint,
    fun loc held => ⟨owned.whole.holder_not_free held, owned.whole.holder_nodup held⟩,
    owned.counted, fun slot => ?_⟩
  · have := (covered 0).mp (.inl free)
    omega
  · have := (covered 0).mp (.inr ⟨loc, held, inside⟩)
    omega
  · have reserved := owned.whole.reserved
    refine (covered slot).trans ?_
    simp only [SpecBlockKVPool.slots] at reserved ⊢
    omega

/-- A worker with blocks of two slots and graphs for two requests. -/
def smallWorker : SpecBlockWorker where
  K := 2
  powerOfTwo := ⟨1, rfl⟩
  draftCaptureBs := [1, 2]
  draftCrossBuckets := [4]
  refreshCaptureBs := [1, 2]
  refreshCrossBuckets := [4]
  refreshAcceptBuckets := [3]

/-- A draft model that caches two slots per prompt token. -/
def smallPrefill : DraftPrefill Nat := fun hidden _ lastHidden _ => {
  cacheCount := 2 * hidden.length
  position := hidden.length
  logits := lastHidden
  rank := lastHidden
  hidden := lastHidden
  tttK := []
  tttV := []
  topIndices := lastHidden }

/-- Static rows of a graph before its first replay. -/
def blankRows (bcap cb : Nat) : List (DraftRow Nat) :=
  List.replicate bcap ⟨0, 0, 0, 0, false, List.replicate cb 0, 0, 0, 0, [], []⟩

/-- A replay that returns zeros. -/
def zeroReplay : Nat → RefreshReplay Nat := fun _ => ⟨0, 0, 0, [], [], 0⟩

/-- What is left of a pool of twelve slots after two requests were prefilled, one of
them accepted a token and the other, which accepted none, was filtered out. -/
def smallState : CrossState Nat where
  pool := ⟨12, 12, [2, 7, 8], 8, 10, false, 0⟩
  infos := [.draft {
    hiddenStates := some [1]
    verifiedId := some [5]
    acceptLength := some [1]
    crossLoc := [[3, 4, 5, 6, 1, 9, 10, 11]]
    crossCount := [8]
    crossPosition := [5]
    tttK := [[]]
    tttV := [[]]
    b0Logits := some [0]
    b0Hidden := some [0]
    b0InputId := some [5]
    b0RankLogits := some [0]
    b0TopIndices := some [0]
    newSeqLens := some [2, 4]
    kvPool := true }]

/-- That run keeps its slots apart. -/
theorem crossSlots_exclusive_small :
    smallState.pool.free.Nodup ∧
      (0 ∉ smallState.pool.free ∧ ∀ loc ∈ smallState.held, 0 ∉ loc) ∧
      smallState.held.Pairwise List.Disjoint ∧
      (∀ loc ∈ smallState.held, loc.Disjoint smallState.pool.free ∧ loc.Nodup) ∧
      (∀ info ∈ smallState.infos, info.crossCount = info.crossLoc.map List.length) ∧
      ∀ slot, (slot ∈ smallState.pool.free ∨ ∃ loc ∈ smallState.held, slot ∈ loc) ↔
        1 ≤ slot ∧ slot ≤ smallState.pool.poolSize - 1 := by
  have created : (crossSystem (T := Nat) smallWorker).Reachable
      ⟨⟨12, 12, List.range' 1 11, 0, 0, false, 0⟩, []⟩ :=
    .start _ ⟨12, 12, rfl, rfl⟩
  have prefilled := created.step _ _ (.prefill _ _ _ smallPrefill [1, 2] [7, 8, 9] [1, 2, 3] [4, 5]
    [1, 2] _ rfl)
  have drafted := prefilled.step _ _ (.draft _ _ [] _ (List.Perm.refl _) blankRows
    (fun _ => [[0, 1], [0, 1]]) 2 _ rfl)
  have refreshed := drafted.step _ _ (.refresh _ _ _ [] _ (List.Perm.refl _) [6, 3, 5] [1, 1, 1]
    [0, 1] rfl zeroReplay [2, 4] _ rfl)
  have filtered := refreshed.step _ _ (.filter _ _ _ [] _ (List.Perm.refl _) [1] (by decide) _ rfl)
  exact crossSlots_exclusive smallWorker smallState filtered

end SpecBlock.Serving
