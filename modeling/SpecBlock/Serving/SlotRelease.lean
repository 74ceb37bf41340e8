import SpecBlock.Serving.Scheduler

/-!
# Slots of requests that left their batch

After a filter, the slots of a request that is in no batch any more should be back on
the free list, so that the pool counts as handed out just what the live requests
record. `filter_batch` tells the draft state which requests stay, except when none
does: then it empties the batch and returns, and nobody returns their slots.

The property therefore holds along every run whose filters leave a request in each
batch that holds slots, and after any other filter it fails.
-/

namespace SpecBlock.Serving

open Rows

variable {T : Type}

/-- Slots recorded for the requests a batch still has. -/
def ScheduleBatch.liveLoc (batch : ScheduleBatch T) : List (List Nat) :=
  batch.crossLoc.take batch.reqs.length

/-- Cross counts recorded for the requests a batch still has, in total. -/
def ScheduleBatch.liveCount (batch : ScheduleBatch T) : Nat :=
  match batch.specInfo with
  | some info => (info.crossCount.take batch.reqs.length).sum
  | none => 0

/-- Every slot of a request in no batch is free, and the pool counts as handed out what
the requests still in a batch record. -/
def SlotsReturned (state : SchedulerState T) : Prop :=
  (∀ slot, 1 ≤ slot → slot < state.pool.poolSize →
    (slot ∈ state.pool.free ∨
      ∃ tracked ∈ state.batches, ∃ loc ∈ tracked.batch.liveLoc, slot ∈ loc)) ∧
    state.pool.nAlloc = (state.batches.map (fun tracked => tracked.batch.liveCount)).sum

/-- A filter leaves a request in the batch, unless the batch holds no slot. -/
def KeepsOwner (batch : ScheduleBatch T) (keep : List Nat) : Prop :=
  keep ≠ [] ∨ batch.crossLoc.flatten = []

/-- The draft state lists exactly the requests of the batch; a batch without requests
holds no slot. -/
def Listed (batch : ScheduleBatch T) : Prop :=
  if batch.reqs = [] then batch.crossLoc.flatten = []
  else ∃ info, batch.specInfo = some info ∧ info.crossLoc.length = batch.reqs.length

/-- The invariant of runs that lose no owner. -/
structure Accounted (state : SchedulerState T) : Prop where
  owned : Owned state.cross
  listed : ∀ tracked ∈ state.batches, Listed tracked.batch

/-- Slots the ownership runs see are those the batches record. -/
theorem TrackedBatch.infos_crossLoc (tracked : TrackedBatch T) :
    tracked.infos.flatMap SpecInfo.crossLoc = tracked.batch.crossLoc := by
  unfold TrackedBatch.infos ScheduleBatch.crossLoc
  cases tracked.batch.specInfo with
  | none => rfl
  | some info => simp [SpecInfo.crossLoc]

/-- Draft states of live batches follow the order of the batches. -/
theorem SchedulerState.infos_perm {batches rest : List (TrackedBatch T)}
    (old : List (TrackedBatch T)) (live : batches.Perm (old ++ rest)) :
    (batches.flatMap TrackedBatch.infos).Perm
      (old.flatMap TrackedBatch.infos ++ rest.flatMap TrackedBatch.infos) := by
  rw [← List.flatMap_append]
  exact live.flatMap_right _

theorem Listed.of_some {batch : ScheduleBatch T} {info : SpecBlockDraftInput T}
    (carried : batch.specInfo = some info) (long : info.crossLoc.length = batch.reqs.length) :
    Listed batch := by
  unfold Listed
  split
  next none =>
    have : info.crossLoc = [] := List.length_eq_zero_iff.mp (by simp [long, none])
    simp [ScheduleBatch.crossLoc, carried, this]
  next some => exact ⟨info, carried, long⟩

theorem Listed.some_info {batch : ScheduleBatch T} (listed : Listed batch)
    (requests : batch.reqs ≠ []) :
    ∃ info, batch.specInfo = some info ∧ info.crossLoc.length = batch.reqs.length := by
  simpa [Listed, requests] using listed

section Steps

variable [Zero T] {worker : SpecBlockWorker}

/-- Prefilling adds a batch whose draft state lists its requests. -/
theorem prefill_accounted (worker : SpecBlockWorker) {state : SchedulerState T}
    {final : SpecBlockKVPool} {prefillAndDraft : DraftPrefill T}
    {requests : List (PrefillRequest T)} {batch : ScheduleBatch T} (accounted : Accounted state)
    (ran : prefillBatch prefillAndDraft requests state.pool = .ok batch final)
    (settled : Nat) (current : Nat → RequestDraft T) :
    Accounted ⟨final, ⟨batch, settled⟩ :: state.batches, current⟩ := by
  constructor
  · obtain ⟨info, extended, rfl⟩ := prefillBatch_ok ran
    have taken : CrossStep worker state.cross ⟨final, .draft info :: state.cross.infos⟩ :=
      .prefill _ _ _ _ _ _ _ _ _ _ extended
    exact crossStep_owned accounted.owned taken
  · intro tracked member
    rcases List.mem_cons.mp member with rfl | older
    · obtain ⟨rows, long, -, rfl⟩ := prefillBatch_rows ran
      exact Listed.of_some rfl (by simp [SpecBlockDraftInput.assemble, long])
    · exact accounted.listed tracked older

/-- Decoding keeps the requests of a batch and replaces its draft state. -/
theorem decode_accounted {state : SchedulerState T} {final : SpecBlockKVPool}
    {tracked : TrackedBatch T} {rest : List (TrackedBatch T)}
    {static : Nat → Nat → List (DraftRow T)} {emitDepths : List (DraftRow T) → List (List Nat)}
    {chains : List (AcceptedChain T)} {replay : Nat → RefreshReplay T} {batch : ScheduleBatch T}
    (accounted : Accounted state) (live : state.batches.Perm (tracked :: rest))
    (each : chains.length = tracked.batch.reqs.length)
    (ran : decodeBatch worker static emitDepths chains replay tracked.batch state.pool =
      .ok batch final) (settled : Nat) (current : Nat → RequestDraft T) :
    Accounted ⟨final, ⟨batch, settled⟩ :: rest, current⟩ := by
  obtain ⟨info, verifyInfo, next, carried, drafted, refreshed, rfl⟩ := decodeBatch_ok ran
  have long := draft_length drafted
  have sameLoc := (draft_owned drafted).1
  have infos := SchedulerState.infos_perm [tracked] live
  have own : tracked.infos = [.draft info] := by simp [TrackedBatch.infos, carried]
  simp only [List.flatMap_cons, List.flatMap_nil, List.append_nil, own, List.singleton_append]
    at infos
  have afterDraft := crossStep_owned accounted.owned
    (.draft _ _ _ _ infos static emitDepths _ _ drafted)
  have acceptEach : (chains.map AcceptedChain.acceptLength).length = verifyInfo.crossLoc.length := by
    rw [List.length_map, sameLoc, long, each]
  have afterRefresh := crossStep_owned afterDraft
    (.refresh _ _ _ _ _ (List.Perm.refl _) _ _ _ acceptEach _ _ _ refreshed)
  refine ⟨afterRefresh, ?_⟩
  intro other member
  rcases List.mem_cons.mp member with rfl | older
  · obtain ⟨rolled, between, newIndices, rows, -, -, assembled, rfl⟩ :=
      refreshDraftState_ok refreshed
    have rowsLong := (refreshRows_row assembled).1
    refine Listed.of_some rfl ?_
    simp [SpecBlockDraftInput.assemble, rowsLong, each]
  · exact accounted.listed other (live.mem_iff.mpr (List.mem_cons_of_mem _ older))

/-- A filter that leaves an owner keeps the accounts, whichever exit it takes. -/
theorem filter_accounted (worker : SpecBlockWorker) {state : SchedulerState T}
    {final : SpecBlockKVPool} {tracked : TrackedBatch T} {rest : List (TrackedBatch T)}
    {chunkedReqToExclude : List Nat} {keepIndices : Option (List Nat)} {batch : ScheduleBatch T}
    (accounted : Accounted state) (live : state.batches.Perm (tracked :: rest))
    (distinct : ∀ keep ∈ keepIndices, keep.Nodup)
    (keepsOwner : KeepsOwner tracked.batch
      (keepIndices.getD (tracked.batch.unfinishedIndices chunkedReqToExclude)))
    (ran : tracked.batch.filterBatch chunkedReqToExclude keepIndices state.pool = .ok batch final)
    (settled : Nat) (current : Nat → RequestDraft T) :
    Accounted ⟨final, ⟨batch, settled⟩ :: rest, current⟩ := by
  have older : ∀ other ∈ rest, Listed other.batch := fun other member =>
    accounted.listed other (live.mem_iff.mpr (List.mem_cons_of_mem _ member))
  have listed := accounted.listed tracked (live.mem_iff.mpr List.mem_cons_self)
  have infos := SchedulerState.infos_perm [tracked] live
  simp only [List.flatMap_cons, List.flatMap_nil, List.append_nil] at infos
  have unmoved : Owned ⟨state.pool, tracked.infos ++ rest.flatMap TrackedBatch.infos⟩ :=
    accounted.owned.replace [] [] infos (Ledger.refl _ _) (by simp) (by simp)
  rcases filterBatch_cases rfl ran with ⟨none, rfl, rfl⟩ | ⟨-, -, rfl, rfl⟩ |
    ⟨some, -, insideReqs, -, specInfo, filtered, rfl⟩
  · -- The draft state is not told; it held no slot.
    refine ⟨unmoved, fun other member => ?_⟩
    rcases List.mem_cons.mp member with rfl | member
    · have noSlot : tracked.batch.crossLoc.flatten = [] := keepsOwner.resolve_left (· none)
      rw [Listed, if_pos rfl]
      exact noSlot
    · exact older other member
  · refine ⟨unmoved, fun other member => ?_⟩
    rcases List.mem_cons.mp member with rfl | member
    · exact listed
    · exact older other member
  · obtain ⟨row, inKeep⟩ := List.exists_mem_of_ne_nil _ some
    have requests : tracked.batch.reqs ≠ [] := by
      intro none
      have := insideReqs row inKeep
      simp [none] at this
    obtain ⟨info, carried, long⟩ := listed.some_info requests
    rw [carried] at filtered
    obtain ⟨next, between, kept, done⟩ := PoolM.bind_ok.mp filtered
    obtain ⟨rfl, rfl⟩ := PoolM.pure_ok.mp done
    have own : tracked.infos = [.draft info] := by simp [TrackedBatch.infos, carried]
    rw [own] at infos
    have distinctKeep : (keepIndices.getD
        (tracked.batch.unfinishedIndices chunkedReqToExclude)).Nodup := by
      cases keepIndices with
      | none => exact unfinishedIndices_nodup _ _
      | some keep => exact distinct keep rfl
    have taken : CrossStep worker state.cross
        ⟨between, .draft next :: rest.flatMap TrackedBatch.infos⟩ :=
      .filter _ _ _ _ _ infos _ distinctKeep _ kept
    refine ⟨crossStep_owned accounted.owned taken, fun other member => ?_⟩
    rcases List.mem_cons.mp member with rfl | member
    · obtain ⟨rfl, -, -⟩ := filterBatch_ok kept
      refine Listed.of_some rfl ?_
      have insideLoc : ∀ row ∈ keepIndices.getD
          (tracked.batch.unfinishedIndices chunkedReqToExclude), row < info.crossLoc.length :=
        fun row member => long ▸ insideReqs row member
      simp only [SpecBlockDraftInput.gathered]
      rw [gather_length _ _ insideLoc, gather_length _ _ insideReqs]
    · exact older other member

theorem merge_accounted (worker : SpecBlockWorker) {state : SchedulerState T}
    {running last : TrackedBatch T} {rest : List (TrackedBatch T)} (accounted : Accounted state)
    (live : state.batches.Perm (running :: last :: rest)) (runningRequests : running.batch.reqs ≠ [])
    (lastRequests : last.batch.reqs ≠ []) (settled : Nat) (current : Nat → RequestDraft T) :
    Accounted ⟨state.pool, ⟨running.batch.mergeBatch last.batch, settled⟩ :: rest, current⟩ := by
  have infos := SchedulerState.infos_perm [running, last] live
  obtain ⟨info, carried, long⟩ :=
    (accounted.listed running (live.mem_iff.mpr (by simp))).some_info runningRequests
  obtain ⟨other, carriedOther, longOther⟩ :=
    (accounted.listed last (live.mem_iff.mpr (by simp))).some_info lastRequests
  have own : running.infos = [.draft info] := by simp [TrackedBatch.infos, carried]
  have ownOther : last.infos = [.draft other] := by simp [TrackedBatch.infos, carriedOther]
  simp only [List.flatMap_cons, List.flatMap_nil, List.append_nil, own, ownOther,
    List.cons_append, List.nil_append] at infos
  have merged : (running.batch.mergeBatch last.batch).specInfo = some (info.mergeBatch other) := by
    simp [ScheduleBatch.mergeBatch, carried, carriedOther]
  have taken : CrossStep worker state.cross
      ⟨state.pool, .draft (info.mergeBatch other) :: rest.flatMap TrackedBatch.infos⟩ :=
    .merge _ _ _ _ _ infos
  constructor
  · have owned := crossStep_owned accounted.owned taken
    simpa [SchedulerState.cross, TrackedBatch.infos, merged] using owned
  · intro tracked member
    rcases List.mem_cons.mp member with rfl | older
    · refine Listed.of_some merged ?_
      simp [SpecBlockDraftInput.mergeBatch, ScheduleBatch.mergeBatch, long, longOther]
    · exact accounted.listed tracked (live.mem_iff.mpr (by simp [older]))

omit [Zero T] in
theorem discard_accounted {state : SchedulerState T} {empty : TrackedBatch T}
    {rest : List (TrackedBatch T)} (accounted : Accounted state)
    (live : state.batches.Perm (empty :: rest)) (noRequests : empty.batch.reqs = [])
    (current : Nat → RequestDraft T) : Accounted ⟨state.pool, rest, current⟩ := by
  have infos := SchedulerState.infos_perm [empty] live
  have listed := accounted.listed empty (live.mem_iff.mpr List.mem_cons_self)
  have noSlot : empty.batch.crossLoc.flatten = [] := by simpa [Listed, noRequests] using listed
  refine ⟨accounted.owned.replace _ [] infos ?_ (by simp) (by simp), ?_⟩
  · simpa [TrackedBatch.infos_crossLoc, noSlot] using Ledger.refl state.pool.slots []
  · intro tracked member
    exact accounted.listed tracked (live.mem_iff.mpr (List.mem_cons_of_mem _ member))

theorem schedulerSystem_accounted {state : SchedulerState T}
    (reached : (schedulerSystem worker KeepsOwner).Reachable state) : Accounted state := by
  refine reached.invariant Accounted ?_ ?_
  · rintro ⟨pool, batches, current⟩ ⟨initialPoolSize, maxPoolSize, created, rfl⟩
    refine ⟨⟨SpecBlockKVPool.create_whole created, ?_, ?_⟩, ?_⟩
    all_goals simp [SchedulerState.cross]
  · intro state following accounted taken
    cases taken with
    | prefill final prefillAndDraft requests batch new ran =>
      exact prefill_accounted worker accounted ran _ _
    | decode final tracked rest live static emitDepths chains each replay batch ran =>
      exact decode_accounted accounted live each ran _ _
    | filter final tracked rest live chunked keepIndices distinct allowed batch ran =>
      exact filter_accounted worker accounted live distinct allowed ran _ _
    | merge running last rest live runningRequests lastRequests =>
      exact merge_accounted worker accounted live runningRequests lastRequests _ _
    | discard empty rest live noRequests => exact discard_accounted accounted live noRequests _

end Steps

theorem Listed.liveLoc_flatten {batch : ScheduleBatch T} (listed : Listed batch) :
    batch.liveLoc.flatten = batch.crossLoc.flatten := by
  unfold Listed at listed
  split at listed
  next none => simp [ScheduleBatch.liveLoc, none, listed]
  next requests =>
    obtain ⟨info, carried, long⟩ := listed
    simp [ScheduleBatch.liveLoc, ScheduleBatch.crossLoc, carried, ← long]

/-- A listed batch whose counts are exact records as many slots as it has. -/
theorem Listed.liveCount_eq {tracked : TrackedBatch T} (listed : Listed tracked.batch)
    (counted : ∀ info ∈ tracked.infos, info.crossCount = info.crossLoc.map List.length) :
    tracked.batch.liveCount = tracked.batch.crossLoc.flatten.length := by
  rw [← listed.liveLoc_flatten]
  unfold ScheduleBatch.liveCount ScheduleBatch.liveLoc ScheduleBatch.crossLoc
  cases carried : tracked.batch.specInfo with
  | none => simp
  | some info =>
    have exactly : info.crossCount = info.crossLoc.map List.length :=
      counted (.draft info) (by simp [TrackedBatch.infos, carried])
    simp [exactly, List.length_flatten, List.map_take]

theorem Accounted.nAlloc_eq {state : SchedulerState T} (accounted : Accounted state) :
    state.pool.nAlloc =
      ((state.batches.map (fun tracked => tracked.batch.crossLoc.flatten.length)).sum : Nat) := by
  have counted := accounted.owned.whole.counted
  have held : state.cross.held = state.batches.flatMap (fun tracked => tracked.batch.crossLoc) := by
    unfold CrossState.held SchedulerState.cross
    rw [List.flatMap_assoc]
    exact congrArg state.batches.flatMap (funext TrackedBatch.infos_crossLoc)
  have total : state.cross.held.flatten.length =
      (state.batches.map (fun tracked => tracked.batch.crossLoc.flatten.length)).sum := by
    rw [held, ← List.flatMap_id, List.flatMap_assoc, List.length_flatMap]
    simp only [List.flatMap_id]
  exact counted.trans (congrArg Nat.cast total)

/-- When the accounts are kept, every slot is free or has a live owner. -/
theorem Accounted.slotsReturned {state : SchedulerState T} (accounted : Accounted state) :
    SlotsReturned state := by
  constructor
  · intro slot low high
    rcases (accounted.owned.whole.covered slot).mpr ⟨low, high⟩ with free | ⟨loc, held, inside⟩
    · exact .inl free
    obtain ⟨info, live, inInfo⟩ := List.mem_flatMap.mp held
    obtain ⟨tracked, member, own⟩ := List.mem_flatMap.mp live
    have inBatch : loc ∈ tracked.batch.crossLoc := by
      rw [← TrackedBatch.infos_crossLoc]
      exact List.mem_flatMap.mpr ⟨info, own, inInfo⟩
    have slotInBatch : slot ∈ tracked.batch.liveLoc.flatten := by
      rw [(accounted.listed tracked member).liveLoc_flatten]
      exact List.mem_flatten.mpr ⟨loc, inBatch, inside⟩
    obtain ⟨liveLoc, inLive, inSlot⟩ := List.mem_flatten.mp slotInBatch
    exact .inr ⟨tracked, member, liveLoc, inLive, inSlot⟩
  · rw [accounted.nAlloc_eq]
    congr 2
    apply List.map_congr_left
    intro tracked member
    refine ((accounted.listed tracked member).liveCount_eq (fun info own => ?_)).symm
    exact accounted.owned.counted info (List.mem_flatMap.mpr ⟨tracked, member, own⟩)

/-- A filter that leaves no owner of a batch with slots loses them. -/
theorem filter_loses {state : SchedulerState T} {final : SpecBlockKVPool}
    {tracked : TrackedBatch T} {rest : List (TrackedBatch T)}
    {chunkedReqToExclude : List Nat} {keepIndices : Option (List Nat)} {batch : ScheduleBatch T}
    (accounted : Accounted state) (live : state.batches.Perm (tracked :: rest))
    (lost : ¬ KeepsOwner tracked.batch
      (keepIndices.getD (tracked.batch.unfinishedIndices chunkedReqToExclude)))
    (ran : tracked.batch.filterBatch chunkedReqToExclude keepIndices state.pool = .ok batch final)
    (settled : Nat) (current : Nat → RequestDraft T) :
    ¬ SlotsReturned ⟨final, ⟨batch, settled⟩ :: rest, current⟩ := by
  rintro ⟨-, balance⟩
  have none : keepIndices.getD (tracked.batch.unfinishedIndices chunkedReqToExclude) = [] := by
    by_contra some
    exact lost (.inl some)
  have slots : tracked.batch.crossLoc.flatten ≠ [] := fun noSlot => lost (.inr noSlot)
  have emptied : batch = { tracked.batch with reqs := [] } ∧ final = state.pool := by
    rcases filterBatch_cases rfl ran with ⟨-, same, unchanged⟩ | ⟨some, -⟩ | ⟨some, -⟩
    · exact ⟨same, unchanged⟩
    · exact (some none).elim
    · exact (some none).elim
  obtain ⟨rfl, rfl⟩ := emptied
  have nothing : ({ tracked.batch with reqs := [] } : ScheduleBatch T).liveCount = 0 := by
    unfold ScheduleBatch.liveCount
    cases tracked.batch.specInfo with
    | none => rfl
    | some info => simp
  have others : (rest.map (fun other => other.batch.liveCount)).sum =
      (rest.map (fun other => other.batch.crossLoc.flatten.length)).sum := by
    congr 1
    apply List.map_congr_left
    intro other member
    have inState := live.mem_iff.mpr (List.mem_cons_of_mem tracked member)
    refine (accounted.listed other inState).liveCount_eq (fun info own => ?_)
    exact accounted.owned.counted info (List.mem_flatMap.mpr ⟨other, inState, own⟩)
  have counted := accounted.nAlloc_eq
  rw [(live.map _).sum_nat] at counted
  have lostSlots : 0 < tracked.batch.crossLoc.flatten.length := List.length_pos_of_ne_nil slots
  simp only [List.map_cons, List.sum_cons] at balance counted
  rw [nothing, others] at balance
  omega

/-- Along every run whose filters leave a request in each batch that holds slots, the
slots of departed requests are back and the pool counts exactly what the live requests
record; and of the filters that may come next, just those preserve this. -/
theorem filterBatch_returns_slots [Zero T] (worker : SpecBlockWorker) (state : SchedulerState T)
    (reached : (schedulerSystem worker KeepsOwner).Reachable state) :
    SlotsReturned state ∧
      ∀ (tracked : TrackedBatch T) (rest : List (TrackedBatch T)),
        state.batches.Perm (tracked :: rest) →
        ∀ (chunkedReqToExclude : List Nat) (keepIndices : Option (List Nat)),
          (∀ keep ∈ keepIndices, keep.Nodup) →
          ∀ (batch : ScheduleBatch T) (final : SpecBlockKVPool),
            tracked.batch.filterBatch chunkedReqToExclude keepIndices state.pool =
              .ok batch final →
            ∀ settled current, SlotsReturned ⟨final, ⟨batch, settled⟩ :: rest, current⟩ ↔
              KeepsOwner tracked.batch
                (keepIndices.getD (tracked.batch.unfinishedIndices chunkedReqToExclude)) := by
  have accounted := schedulerSystem_accounted reached
  refine ⟨accounted.slotsReturned, ?_⟩
  intro tracked rest live chunked keepIndices distinct batch final ran settled current
  constructor
  · intro returned
    by_contra lost
    exact filter_loses accounted live lost ran settled current returned
  · intro keepsOwner
    exact (filter_accounted worker accounted live distinct keepsOwner ran settled
      current).slotsReturned

/-- A run whose filter drops the first of two requests returns its slots. -/
theorem filterBatch_returns_slots_small :
    ∃ (state : SchedulerState Nat) (tracked : TrackedBatch Nat) (batch : ScheduleBatch Nat)
      (final : SpecBlockKVPool),
      (schedulerSystem smallWorker KeepsOwner).Reachable state ∧ state.batches = [tracked] ∧
        tracked.batch.filterBatch [] none state.pool = .ok batch final ∧ final.nAlloc = 2 ∧
        SlotsReturned ⟨final, [⟨batch, 0⟩], state.current⟩ := by
  have created : (schedulerSystem (T := Nat) smallWorker KeepsOwner).Reachable
      smallStart := .start _ ⟨12, 12, rfl, rfl⟩
  have prefilled := created.step _ _ (.prefill _ _ smallPrefill smallRequests _ (by decide) rfl)
  have decoded := prefilled.step _ _ (.decode _ _ _ [] (List.Perm.refl _) blankRows
    (fun _ => [[0, 1], [0]]) smallChains rfl zeroReplay _ rfl)
  refine ⟨_, _, _, _, decoded, rfl, rfl, rfl, ?_⟩
  exact ((filterBatch_returns_slots smallWorker _ decoded).2 _ [] (List.Perm.refl _) [] none
    (by simp) _ _ rfl _ _).mpr (.inl (by decide))

/-- When the only request of a batch finishes, the filter returns none of its six slots. -/
theorem filterBatch_leaks_last :
    ∃ (state : SchedulerState Nat) (tracked : TrackedBatch Nat) (batch : ScheduleBatch Nat)
      (final : SpecBlockKVPool),
      (schedulerSystem smallWorker (fun _ _ => True)).Reachable state ∧ state.batches = [tracked] ∧
        tracked.batch.filterBatch [] none state.pool = .ok batch final ∧
        batch.reqs = [] ∧ final.nAlloc = 6 ∧ final.free = [7, 8, 9, 10, 11] ∧
        ¬ SlotsReturned ⟨final, [⟨batch, tracked.settled⟩], state.current⟩ := by
  have created : (schedulerSystem (T := Nat) smallWorker (fun _ _ => True)).Reachable
      smallStart := .start _ ⟨12, 12, rfl, rfl⟩
  have prefilled := created.step _ _
    (.prefill _ _ smallPrefill (smallRequests.take 1) _ (by decide) rfl)
  have decoded := prefilled.step _ _ (.decode _ _ _ [] (List.Perm.refl _) blankRows
    (fun _ => [[0, 1]]) (smallChains.take 1) rfl zeroReplay _ rfl)
  refine ⟨_, _, _, _, decoded, rfl, rfl, rfl, rfl, rfl, ?_⟩
  rintro ⟨-, balance⟩
  exact absurd balance (by decide)

end SpecBlock.Serving
