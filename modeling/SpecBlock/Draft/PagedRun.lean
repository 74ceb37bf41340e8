import SpecBlock.Draft.PagedContext

/-!
# Runs of the serving loop

Whatever prompts come in, whichever requests decode together and whichever leave, every live
request's slots hold its context.
-/

namespace SpecBlock.Draft

open Serving Stores

variable {V : Type} {K : Nat}

theorem DraftContext.servedRecords_concat {H : Type} {context : DraftContext H}
    {chain : AcceptedChain H} (chains : List (AcceptedChain H)) :
    context.servedRecords K (chains ++ [chain]) =
      context.servedRecords K chains ++ [(context.rounds K chains).servedRecord K chain] := by
  induction chains generalizing context with
  | nil => rfl
  | cons first chains ih =>
    exact congrArg (context.servedRecord K first :: ·) ih

/-- A request whose slots did not change still holds its context. -/
theorem RequestTracks.frame {memory kv : Nat → Option (CrossSlot (List V))}
    {request : PagedRequest K V} (tracks : RequestTracks memory request)
    (untouched : ∀ slot ∈ request.crossLoc, kv slot = memory slot) : RequestTracks kv request := by
  refine ⟨?_, tracks.counted, tracks.position, tracks.records⟩
  rw [← tracks.holds]
  exact List.map_congr_left untouched

theorem RequestTracks.sized {kv : Nat → Option (CrossSlot (List V))} {request : PagedRequest K V}
    (tracks : RequestTracks kv request) :
    request.crossLoc.length = request.context.slots.length := by
  simpa using congrArg List.length tracks.holds

/-- The slots a request keeps in a round hold what it keeps of its context. -/
theorem RequestTracks.kept {kv : Nat → Option (CrossSlot (List V))} {request : PagedRequest K V}
    (tracks : RequestTracks kv request) (chain : AcceptedChain (List V)) :
    (request.kept chain).map kv = (request.context.kept K chain).map some := by
  unfold PagedRequest.kept DraftContext.kept
  split
  · rw [List.map_take, List.map_take, tracks.holds, tracks.sized]
  · exact tracks.holds

/-- No slot of a whole pool is in two of the lists, nor twice in one. -/
theorem whole_apart {state : SlotState} {held : List (List Nat)} (whole : Whole state held)
    {row other : Nat} {loc others : List Nat} (atRow : held[row]? = some loc)
    (atOther : held[other]? = some others) (different : row ≠ other) : List.Disjoint loc others := by
  obtain ⟨low, rfl⟩ := List.getElem?_eq_some_iff.mp atRow
  obtain ⟨high, rfl⟩ := List.getElem?_eq_some_iff.mp atOther
  rcases Nat.lt_or_gt_of_ne different with before | after
  · exact List.pairwise_iff_getElem.mp whole.holders_disjoint _ _ low high before
  · exact (List.pairwise_iff_getElem.mp whole.holders_disjoint _ _ high low after).symm

section granted

variable {pool : SlotState} {held granted : List (List Nat)}

theorem granted_nodup (whole : Whole pool held)
    (ends : ∀ (row : Nat) (loc : List Nat), granted[row]? = some loc →
      ∃ kept, held[row]? = some (kept ++ loc)) : granted.flatten.Nodup := by
  rw [List.nodup_flatten]
  constructor
  · intro loc member
    obtain ⟨row, atRow⟩ := List.mem_iff_getElem?.mp member
    obtain ⟨kept, atHeld⟩ := ends row loc atRow
    exact (List.nodup_append.mp (whole.holder_nodup (List.mem_of_getElem? atHeld))).2.1
  · rw [List.pairwise_iff_getElem]
    intro row other low high before
    obtain ⟨kept, atRow⟩ := ends row _ (List.getElem?_eq_getElem low)
    obtain ⟨others, atOther⟩ := ends other _ (List.getElem?_eq_getElem high)
    have apart := whole_apart whole atRow atOther (Nat.ne_of_lt before)
    exact fun slot here there => apart (List.mem_append_right _ here) (List.mem_append_right _ there)

/-- A held slot that was not granted in its own list was not granted. -/
theorem granted_apart (whole : Whole pool held)
    (ends : ∀ (row : Nat) (loc : List Nat), granted[row]? = some loc →
      ∃ kept, held[row]? = some (kept ++ loc)) {index slot : Nat} {own : List Nat}
    (atIndex : held[index]? = some own) (member : slot ∈ own)
    (old : ∀ loc, granted[index]? = some loc → slot ∉ loc) : slot ∉ granted.flatten := by
  intro taken
  obtain ⟨loc, inGranted, inLoc⟩ := List.mem_flatten.mp taken
  obtain ⟨row, atRow⟩ := List.mem_iff_getElem?.mp inGranted
  by_cases same : row = index
  · exact old loc (same ▸ atRow) inLoc
  · obtain ⟨kept, atHeld⟩ := ends row loc atRow
    exact whole_apart whole atHeld atIndex same (List.mem_append_right _ inLoc) member

end granted

theorem prefill_tracks {state : PagedDrafts K V} {prompt : PromptContext K (List V)} {loc : List Nat}
    {final : SpecBlockKVPool} {kv : Nat → Option (CrossSlot (List V))} (tracks : PagedTracks state)
    (allocated : SpecBlockKVPool.alloc prompt.slots.length state.pool = .ok loc final)
    (written : Outcome state.kv (loc.zip (prompt.slots.map some)) kv) :
    PagedTracks {
      pool := final
      kv := kv
      requests := ⟨loc, prompt.slots.length, prompt.draftPosition, prompt, [], []⟩ ::
        state.requests } := by
  obtain ⟨moved, exactly⟩ := SpecBlockKVPool.alloc_ledger allocated
  have whole : Whole final.slots (loc :: state.requests.map PagedRequest.crossLoc) :=
    tracks.whole.entry (moved.frame _)
  refine ⟨whole, fun request member => ?_⟩
  rcases List.mem_cons.mp member with rfl | member
  · refine ⟨?_, exactly.symm, rfl, rfl⟩
    exact written.zip_eq (whole.holder_nodup List.mem_cons_self) (by simpa using exactly)
  · apply (tracks.requests request member).frame
    intro slot inLoc
    apply written.zip_frame
    intro taken
    have apart := (List.pairwise_cons.mp whole.holders_disjoint).1 request.crossLoc
      (List.mem_map_of_mem member)
    exact apart taken inLoc

theorem release_tracks {state : PagedDrafts K V} {request : PagedRequest K V}
    {rest : List (PagedRequest K V)} {final : SpecBlockKVPool} (tracks : PagedTracks state)
    (live : state.requests.Perm (request :: rest))
    (released : SpecBlockKVPool.release request.crossLoc state.pool = .ok () final) :
    PagedTracks { state with pool := final, requests := rest } := by
  have listed := (live.map PagedRequest.crossLoc).flatten
  have real : 0 ∉ request.crossLoc := by
    intro member
    have held : request.crossLoc ∈ state.requests.map PagedRequest.crossLoc :=
      List.mem_map_of_mem (live.symm.subset List.mem_cons_self)
    have := (tracks.whole.covered 0).mp (.inr ⟨_, held, member⟩)
    omega
  have moved := (SpecBlockKVPool.release_ledger real released).frame
    (rest.map PagedRequest.crossLoc).flatten
  refine ⟨tracks.whole.entry (moved.reorder listed.symm (List.Perm.refl _)), ?_⟩
  exact fun other member => tracks.requests other (live.symm.subset (List.mem_cons_of_mem _ member))

theorem acceptBucket_fits {buckets : List Nat} {chains : List (AcceptedChain (List V))}
    {acceptBucket : Nat}
    (bucket : (chains.map (fun chain => chain.acceptLength + 1)).max?.bind
      (resolveBucket buckets) = some acceptBucket) :
    ∀ chain ∈ chains, chain.acceptLength + 1 ≤ acceptBucket := by
  intro chain member
  obtain ⟨longest, isMax, found⟩ := Option.bind_eq_some_iff.mp bucket
  have bound := (List.max?_eq_some_iff.mp isMax).2 _ (List.mem_map_of_mem member)
  have enough : longest ≤ acceptBucket := by simpa using List.find?_some found
  exact bound.trans enough

section refresh

variable {worker : SpecBlockWorker} {state : PagedDrafts worker.K V}
  {batch rest : List (PagedRequest worker.K V)} {chains : List (AcceptedChain (List V))}
  {info : SpecBlockVerifyInput (List V)} {replay : Nat → RefreshReplay (List V)}
  {seqLens : List Nat} {next : SpecBlockDraftInput (List V)} {final : SpecBlockKVPool}
  {hidden : Matrix2 V} {crossBucket acceptBucket : Nat}
  {plan : SpecBlockRefreshTensorPlan V Nat} {kv : Nat → Option (CrossSlot (List V))}

/-- What a round gives one request of the batch. -/
structure RowGranted (worker : SpecBlockWorker) (next : SpecBlockDraftInput (List V)) (row : Nat)
    (request : PagedRequest worker.K V) (chain : AcceptedChain (List V)) (new : List Nat) : Prop where
  sized : new.length = (chain.acceptLength + 1) * worker.K
  loc : next.crossLoc[row]? = some (request.kept chain ++ new)
  count : next.crossCount[row]? = some (request.keptCount chain + (chain.acceptLength + 1) * worker.K)
  position : next.crossPosition[row]? = some (if chain.acceptLength = 0 then request.crossPosition
    else request.crossPosition + 1 + (chain.acceptLength + 1))

/-- A request whose kept slots did not change and whose new ones hold the appended slots has
the context of one more round. -/
theorem RowGranted.tracks {memory : Nat → Option (CrossSlot (List V))} {row : Nat}
    {request : PagedRequest worker.K V} {chain : AcceptedChain (List V)} {new : List Nat}
    (given : RowGranted worker next row request chain new) (old : RequestTracks memory request)
    (keptSame : ∀ slot ∈ request.kept chain, kv slot = memory slot)
    (newHolds : new.map kv = (request.context.appended worker.K chain).map some) :
    RequestTracks kv (request.advanced next kv row chain) := by
  have loc : next.crossLoc.getD row [] = request.kept chain ++ new := by
    rw [List.getD_eq_getElem?_getD, given.loc, Option.getD_some]
  have count : next.crossCount.getD row 0 =
      request.keptCount chain + (chain.acceptLength + 1) * worker.K := by
    rw [List.getD_eq_getElem?_getD, given.count, Option.getD_some]
  have keptCounted : request.keptCount chain = (request.kept chain).length := by
    unfold PagedRequest.keptCount PagedRequest.kept
    split
    · rw [List.length_take, Nat.min_eq_left (Nat.sub_le _ _), old.counted]
    · exact old.counted
  have following : (request.advanced next kv row chain).context =
      request.context.refresh worker.K chain := DraftContext.rounds_concat request.chains
  have position : next.crossPosition.getD row 0 =
      (request.context.refresh worker.K chain).draftPosition := by
    rw [List.getD_eq_getElem?_getD, given.position, Option.getD_some, old.position]
    rfl
  have holds : (request.kept chain ++ new).map kv =
      (request.context.refresh worker.K chain).slots.map some := by
    rw [List.map_append, List.map_congr_left keptSame, old.kept, newHolds, ← List.map_append]
    rfl
  have counted : next.crossCount.getD row 0 =
      (request.context.refresh worker.K chain).slots.length := by
    have sized := congrArg List.length holds
    rw [List.length_map, List.length_map, List.length_append, given.sized] at sized
    rw [count, keptCounted, sized]
  refine ⟨?_, ?_, ?_, ?_⟩
  · rw [following, ← holds]
    exact congrArg (List.map kv) loc
  · show next.crossCount.getD row 0 = (next.crossLoc.getD row []).length
    rw [loc, count, keptCounted, List.length_append, given.sized]
  · rw [following]
    exact position
  · show request.records ++ [_] = request.prompt.servedRecords worker.K (request.chains ++ [chain])
    rw [DraftContext.servedRecords_concat, old.records]
    congr 2
    have appended : ((next.crossLoc.getD row []).drop (request.kept chain).length).filterMap kv =
        request.context.appended worker.K chain := by
      have read : new.filterMap kv = (new.map kv).filterMap id := by
        rw [List.filterMap_map]
        rfl
      rw [loc, List.drop_left, read, newHolds, List.filterMap_map]
      simp
    rw [appended, counted, position]
    rfl

theorem refresh_granted (sameLoc : info.crossLoc = batch.map PagedRequest.crossLoc)
    (sameCount : info.crossCount = batch.map PagedRequest.crossCount)
    (samePosition : info.crossPosition = batch.map PagedRequest.crossPosition)
    (ran : refreshDraftState worker info (chains.flatMap AcceptedChain.verifiedIds)
      (chains.flatMap AcceptedChain.verifiedHidden) (chains.map AcceptedChain.acceptLength)
      replay seqLens state.pool = .ok next final) {row : Nat}
    {request : PagedRequest worker.K V} {chain : AcceptedChain (List V)}
    (atRequest : batch[row]? = some request) (atChain : chains[row]? = some chain) :
    ∃ new, RowGranted worker next row request chain new ∧
      (grantedSlots batch chains next.crossLoc)[row]? = some new := by
  obtain ⟨new, sized, loc, count, position⟩ := refreshDraftState_row ran
    (by rw [List.getElem?_map, atChain]; rfl) (by rw [sameLoc, List.getElem?_map, atRequest]; rfl)
    (by rw [sameCount, List.getElem?_map, atRequest]; rfl)
    (by rw [samePosition, List.getElem?_map, atRequest]; rfl)
  refine ⟨new, ⟨sized, loc, count, position⟩, ?_⟩
  have entry : (batch.zip chains)[row]? = some (request, chain) :=
    List.getElem?_zip_eq_some.mpr ⟨atRequest, atChain⟩
  have read : next.crossLoc.getD row [] = request.kept chain ++ new := by
    rw [List.getD_eq_getElem?_getD, loc]
    rfl
  rw [grantedSlots, List.getElem?_mapIdx, entry, Option.map_some, read, List.drop_left]

theorem refresh_length
    (ran : refreshDraftState worker info (chains.flatMap AcceptedChain.verifiedIds)
      (chains.flatMap AcceptedChain.verifiedHidden) (chains.map AcceptedChain.acceptLength)
      replay seqLens state.pool = .ok next final) : next.crossLoc.length = chains.length := by
  obtain ⟨rolled, between, newIndices, rows, -, -, assembled, rfl⟩ := refreshDraftState_ok ran
  have sized := (refreshRows_row assembled).1
  simpa [SpecBlockDraftInput.assemble] using sized

/-- The plan has as many valid lanes in a row as the row was granted slots. -/
theorem plan_validSlots [Zero V] {granted : List (List Nat)}
    (planned : Plans (refreshInputs batch chains hidden crossBucket acceptBucket granted) worker.K
      plan) {row : Nat} {chain : AcceptedChain (List V)} (atChain : chains[row]? = some chain) :
    plan.newCrossValidSlots.getD row 0 = (chain.acceptLength + 1) * worker.K := by
  rw [planned.eq_plain refreshInputs_flat]
  simp [RefreshInputs.plainPlan, RefreshInputs.nPerReq, refreshInputs, List.getD_eq_getElem?_getD,
    atChain]

/-- The batch's slots after a round, with those of the other requests, are still each held once. -/
theorem refresh_whole (tracks : PagedTracks state) (live : state.requests.Perm (batch ++ rest))
    (each : chains.length = batch.length)
    (sameLoc : info.crossLoc = batch.map PagedRequest.crossLoc)
    (sameCount : info.crossCount = batch.map PagedRequest.crossCount)
    (ran : refreshDraftState worker info (chains.flatMap AcceptedChain.verifiedIds)
      (chains.flatMap AcceptedChain.verifiedHidden) (chains.map AcceptedChain.acceptLength)
      replay seqLens state.pool = .ok next final) :
    Whole final.slots (next.crossLoc ++ rest.map PagedRequest.crossLoc) := by
  have listed : (info.crossLoc ++ rest.map PagedRequest.crossLoc).flatten.Perm
      (state.requests.map PagedRequest.crossLoc).flatten := by
    rw [sameLoc, ← List.map_append]
    exact ((live.map PagedRequest.crossLoc).flatten).symm
  have real : 0 ∉ info.crossLoc.flatten := by
    intro member
    obtain ⟨holder, inHeld, inHolder⟩ := List.mem_flatten.mp
      (listed.subset (by rw [List.flatten_append]; exact List.mem_append_left _ member))
    have := (tracks.whole.covered 0).mp (.inr ⟨holder, inHeld, inHolder⟩)
    omega
  have counted : info.crossCount = info.crossLoc.map List.length := by
    rw [sameCount, sameLoc, List.map_map]
    apply List.map_congr_left
    intro request member
    exact (tracks.requests request (live.symm.subset (List.mem_append_left _ member))).counted
  obtain ⟨moved, -, -⟩ := refreshDraftState_ledger real counted
    (by rw [List.length_map, each, sameLoc, List.length_map]) ran
  have framed := moved.frame (rest.map PagedRequest.crossLoc).flatten
  rw [← List.flatten_append, ← List.flatten_append] at framed
  exact tracks.whole.entry (framed.reorder listed (List.Perm.refl _))

theorem refresh_tracks [Zero V] (tracks : PagedTracks state)
    (live : state.requests.Perm (batch ++ rest)) (each : chains.length = batch.length)
    (sameLoc : info.crossLoc = batch.map PagedRequest.crossLoc)
    (sameCount : info.crossCount = batch.map PagedRequest.crossCount)
    (samePosition : info.crossPosition = batch.map PagedRequest.crossPosition)
    (ran : refreshDraftState worker info (chains.flatMap AcceptedChain.verifiedIds)
      (chains.flatMap AcceptedChain.verifiedHidden) (chains.map AcceptedChain.acceptLength)
      replay seqLens state.pool = .ok next final)
    (sameHidden : hidden.rows = chains.flatMap AcceptedChain.verifiedHidden)
    (bucket : (chains.map (fun chain => chain.acceptLength + 1)).max?.bind
      (resolveBucket worker.refreshAcceptBuckets) = some acceptBucket)
    (planned : Plans (refreshInputs batch chains hidden crossBucket acceptBucket
      (grantedSlots batch chains next.crossLoc)) worker.K plan)
    (written : Outcome state.kv (setKvPadded worker.K (acceptBucket * worker.K) plan
      (grantedSlots batch chains next.crossLoc)) kv) :
    PagedTracks {
      pool := final
      kv := kv
      requests := (batch.zip chains).mapIdx (fun row entry =>
        entry.1.advanced next kv row entry.2) ++ rest } := by
  have whole := refresh_whole tracks live each sameLoc sameCount ran
  have length := (refresh_length ran).trans each
  have fits := acceptBucket_fits bucket
  have rowOf (row : Nat) (loc : List Nat)
      (atRow : (grantedSlots batch chains next.crossLoc)[row]? = some loc) :
      ∃ request chain, batch[row]? = some request ∧ chains[row]? = some chain ∧
        RowGranted worker next row request chain loc := by
    have entry := atRow
    rw [grantedSlots, List.getElem?_mapIdx, Option.map_eq_some_iff] at entry
    obtain ⟨⟨request, chain⟩, listed, -⟩ := entry
    obtain ⟨atRequest, atChain⟩ := List.getElem?_zip_eq_some.mp listed
    obtain ⟨new, given, atNew⟩ :=
      refresh_granted sameLoc sameCount samePosition ran atRequest atChain
    obtain rfl : new = loc := Option.some.inj (atNew.symm.trans atRow)
    exact ⟨request, chain, atRequest, atChain, given⟩
  have ends (row : Nat) (loc : List Nat)
      (atRow : (grantedSlots batch chains next.crossLoc)[row]? = some loc) :
      ∃ kept, (next.crossLoc ++ rest.map PagedRequest.crossLoc)[row]? = some (kept ++ loc) := by
    obtain ⟨request, chain, -, -, given⟩ := rowOf row loc atRow
    have inside := (List.getElem?_eq_some_iff.mp given.loc).1
    exact ⟨request.kept chain, by rw [List.getElem?_append_left inside, given.loc]⟩
  have valid (row : Nat) (loc : List Nat)
      (atRow : (grantedSlots batch chains next.crossLoc)[row]? = some loc) :
      plan.newCrossValidSlots.getD row 0 = loc.length := by
    obtain ⟨request, chain, -, atChain, given⟩ := rowOf row loc atRow
    rw [plan_validSlots planned atChain, given.sized]
  have within (loc : List Nat) (member : loc ∈ grantedSlots batch chains next.crossLoc) :
      loc.length ≤ acceptBucket * worker.K := by
    obtain ⟨row, atRow⟩ := List.mem_iff_getElem?.mp member
    obtain ⟨request, chain, -, atChain, given⟩ := rowOf row loc atRow
    rw [given.sized]
    exact Nat.mul_le_mul_right _ (fits chain (List.mem_of_getElem? atChain))
  have distinct := granted_nodup whole ends
  have advanced (row : Nat) (request : PagedRequest worker.K V) (chain : AcceptedChain (List V))
      (atRequest : batch[row]? = some request) (atChain : chains[row]? = some chain) :
      (request.advanced next kv row chain).crossLoc = next.crossLoc.getD row [] ∧
        RequestTracks kv (request.advanced next kv row chain) := by
    obtain ⟨new, given, atNew⟩ :=
      refresh_granted sameLoc sameCount samePosition ran atRequest atChain
    have old := tracks.requests request
      (live.symm.subset (List.mem_append_left _ (List.mem_of_getElem? atRequest)))
    refine ⟨rfl, given.tracks old ?_ ?_⟩
    · intro slot inKept
      have inside := (List.getElem?_eq_some_iff.mp given.loc).1
      have here : (next.crossLoc ++ rest.map PagedRequest.crossLoc)[row]? =
          some (request.kept chain ++ new) := by
        rw [List.getElem?_append_left inside, given.loc]
      refine setKvPadded_frame written valid within
        (granted_apart whole ends here (List.mem_append_left _ inKept) ?_)
      intro loc atGranted inNew
      obtain rfl : loc = new := Option.some.inj (atGranted.symm.trans atNew)
      have nodup := whole.holder_nodup (List.mem_of_getElem? here)
      exact (List.nodup_append.mp nodup).2.2 slot inKept slot inNew rfl
    · rw [setKvPadded_granted written valid within distinct atNew, given.sized,
        planned.eq_plain refreshInputs_flat,
        planSlot_chain sameHidden atRequest atChain (fits chain (List.mem_of_getElem? atChain))
          old.position]
  refine ⟨?_, ?_⟩
  · have locs : ((batch.zip chains).mapIdx (fun row entry =>
        entry.1.advanced next kv row entry.2)).map PagedRequest.crossLoc = next.crossLoc := by
      apply List.ext_getElem?
      intro row
      by_cases inside : row < batch.length
      · have atRequest := List.getElem?_eq_getElem inside
        have atChain := List.getElem?_eq_getElem (by omega : row < chains.length)
        have entry : (batch.zip chains)[row]? = some (batch[row], chains[row]) :=
          List.getElem?_zip_eq_some.mpr ⟨atRequest, atChain⟩
        rw [List.getElem?_map, List.getElem?_mapIdx, entry, Option.map_some, Option.map_some,
          (advanced row _ _ atRequest atChain).1, List.getD_eq_getElem?_getD,
          List.getElem?_eq_getElem (by omega : row < next.crossLoc.length), Option.getD_some]
      · rw [List.getElem?_eq_none (by simp; omega), List.getElem?_eq_none (by omega)]
    rw [List.map_append, locs]
    exact whole
  · intro request member
    rcases List.mem_append.mp member with inBatch | inRest
    · obtain ⟨row, atRow⟩ := List.mem_iff_getElem?.mp inBatch
      rw [List.getElem?_mapIdx, Option.map_eq_some_iff] at atRow
      obtain ⟨⟨old, chain⟩, listed, rfl⟩ := atRow
      obtain ⟨atOld, atChain⟩ := List.getElem?_zip_eq_some.mp listed
      exact (advanced row old chain atOld atChain).2
    · apply (tracks.requests request (live.symm.subset (List.mem_append_right _ inRest))).frame
      intro slot inLoc
      obtain ⟨index, atIndex⟩ := List.mem_iff_getElem?.mp inRest
      have here : (next.crossLoc ++ rest.map PagedRequest.crossLoc)[next.crossLoc.length + index]? =
          some request.crossLoc := by
        rw [List.getElem?_append_right (by omega), Nat.add_sub_cancel_left, List.getElem?_map,
          atIndex, Option.map_some]
      refine setKvPadded_frame written valid within (granted_apart whole ends here inLoc ?_)
      intro loc atGranted
      obtain ⟨other, chain, -, -, given⟩ := rowOf _ loc atGranted
      have inside := (List.getElem?_eq_some_iff.mp given.loc).1
      omega

end refresh

/-- Every run of the serving loop keeps each request's context. -/
theorem pagedSystem_tracks [Zero V] {worker : SpecBlockWorker}
    {state : PagedDrafts worker.K V} (reached : (pagedSystem worker).Reachable state) :
    PagedTracks state := by
  refine reached.invariant PagedTracks ?_ ?_
  · rintro state ⟨initialPoolSize, maxPoolSize, created, none⟩
    refine ⟨?_, ?_⟩
    · rw [none]
      exact SpecBlockKVPool.create_whole created
    · intro request member
      rw [none] at member
      cases member
  · intro state following tracks taken
    cases taken with
    | prefill prompt loc final allocated kv written => exact prefill_tracks tracks allocated written
    | refresh batch rest live chains each info sameLoc sameCount samePosition replay seqLens next final
        ran hidden sameHidden crossBucket acceptBucket bucket plan planned kv written =>
      exact refresh_tracks tracks live each sameLoc sameCount samePosition ran sameHidden bucket
        planned written
    | release request rest live final released => exact release_tracks tracks live released

end SpecBlock.Draft
