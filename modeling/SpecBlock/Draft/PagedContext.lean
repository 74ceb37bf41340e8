import SpecBlock.Draft.PagedRounds

/-!
# The context in the paged pool

The rows of a refresh plan, read at their valid lanes, are the slots a round appends. The
scatter writes them to slots no other request holds and the request does not keep, so every
request's slots go on holding its context.
-/

namespace SpecBlock.Draft

open Serving Stores

variable {V : Type} {K : Nat}

theorem flatMap_getElem? {α β : Type} {chains : List β} (rows : β → List α) {row column : Nat}
    {chain : β} (listed : chains[row]? = some chain) (inside : column < (rows chain).length) :
    (chains.flatMap rows)[((chains.map (fun chain => (rows chain).length)).take row).sum + column]? =
      (rows chain)[column]? := by
  induction chains generalizing row with
  | nil => simp at listed
  | cons first chains ih =>
    cases row with
    | zero =>
      obtain rfl : first = chain := by simpa using listed
      simp [List.getElem?_append_left inside]
    | succ row =>
      have rest := ih (show chains[row]? = some chain by simpa using listed)
      rw [← rest, List.flatMap_cons, List.map_cons, List.take_succ_cons, List.sum_cons,
        Nat.add_assoc, List.getElem?_append_right (Nat.le_add_right _ _), Nat.add_sub_cancel_left]

theorem range_row {α : Type} {count row : Nat} (cells : Nat → List α) (inside : row < count) :
    ((List.range count).map cells).getD row [] = cells row := by
  simp [List.getD_eq_getElem?_getD, inside]

theorem range_cell {α : Type} {count column : Nat} (outside : α) (cell : Nat → α)
    (inside : column < count) : ((List.range count).map cell).getD column outside = cell column := by
  simp [List.getD_eq_getElem?_getD, inside]

/-- The token at a column is the chain's one further, the last one repeated. -/
theorem chainTokens_getElem? {H : Type} (chain : AcceptedChain H) {column : Nat}
    (valid : column < chain.acceptLength + 1) :
    (chainTokens chain)[column]? = chain.verifiedIds[min (column + 1) chain.acceptLength]? := by
  have size : chain.verifiedIds.length = chain.acceptLength + 1 := by
    simp [AcceptedChain.verifiedIds, AcceptedChain.acceptLength]
  unfold chainTokens
  by_cases before : column < chain.acceptLength
  · rw [Nat.min_eq_left before, List.getElem?_append_left (by rw [List.length_drop]; omega),
      List.getElem?_drop, Nat.add_comm]
  · have last : column = chain.acceptLength := by omega
    rw [last, Nat.min_eq_right (by omega), List.getElem?_append_right (by rw [List.length_drop]; omega),
      List.length_drop, size]
    simp [AcceptedChain.verifiedIds, AcceptedChain.acceptLength]

section plan

variable {batch : List (PagedRequest K V)} {chains : List (AcceptedChain (List V))}
  {hidden : Matrix2 V} {crossBucket acceptBucket : Nat} {granted : List (List Nat)}

/-- The flat chains hold a token and a hidden row for every chain row. -/
theorem refreshInputs_flat :
    (refreshInputs batch chains hidden crossBucket acceptBucket granted).Flat := by
  unfold RefreshInputs.Flat RefreshInputs.nPerReq refreshInputs
  rw [List.length_flatMap, List.map_map]
  congr 1
  apply List.map_congr_left
  intro chain _
  simp [AcceptedChain.verifiedIds, AcceptedChain.acceptLength]

theorem Plans.eq_plain [Zero V] {inputs : RefreshInputs V Nat} {plan : SpecBlockRefreshTensorPlan V Nat}
    (planned : Plans inputs K plan) (flat : inputs.Flat) : plan = inputs.plainPlan K := by
  rcases planned.built with plain | ⟨empty, filled, launched, rfl⟩
  · exact plain
  · exact RefreshInputs.launched_plan planned.checked flat launched

variable {row : Nat} {request : PagedRequest K V} {chain : AcceptedChain (List V)}

theorem chainRow_getD {α : Type} (rows : AcceptedChain (List V) → List α) (outside : α)
    (sized : ∀ chain, (rows chain).length = chain.acceptLength + 1)
    (listed : chains[row]? = some chain) {column : Nat} (valid : column < chain.acceptLength + 1) :
    let counts := (chains.map AcceptedChain.acceptLength).map (· + 1)
    (chains.flatMap rows).getD (min ((chainOffsets counts).getD row 0 + column)
      ((chains.flatMap rows).length - 1)) outside = (rows chain).getD column outside := by
  intro counts
  have low : row < chains.length := (List.getElem?_eq_some_iff.mp listed).1
  have sizes : chains.map (fun chain => (rows chain).length) = counts := by
    simp only [sized]
    simp [counts]
  have offset := chainOffsets_getD counts row (by simpa [counts] using low)
  have inside := flatMap_getElem? rows listed (sized chain ▸ valid)
  rw [sizes] at inside
  have bound : (counts.take row).sum + column < (chains.flatMap rows).length := by
    have read := List.getElem?_eq_getElem (sized chain ▸ valid : column < (rows chain).length)
    rw [read] at inside
    exact (List.getElem?_eq_some_iff.mp inside).1
  rw [offset, Nat.min_eq_left (by omega), List.getD_eq_getElem?_getD, inside,
    List.getD_eq_getElem?_getD]

theorem planSlot_chain [Zero V] (sameHidden : hidden.rows = chains.flatMap AcceptedChain.verifiedHidden)
    (atRequest : batch[row]? = some request) (atChain : chains[row]? = some chain)
    (fits : chain.acceptLength + 1 ≤ acceptBucket)
    (same : request.crossPosition = request.context.draftPosition) :
    let inputs := refreshInputs batch chains hidden crossBucket acceptBucket granted
    (List.range ((chain.acceptLength + 1) * K)).map (planSlot K (inputs.plainPlan K) row) =
      request.context.appended K chain := by
  intro inputs
  have low : row < inputs.batchSize := by
    have inside := (List.getElem?_eq_some_iff.mp atChain).1
    simpa [inputs, RefreshInputs.batchSize, refreshInputs] using inside
  have count : inputs.nPerReq.getD row 0 = chain.acceptLength + 1 := by
    simp [inputs, RefreshInputs.nPerReq, refreshInputs, List.getD_eq_getElem?_getD, atChain]
  have rowsSized := inputs.nPerReq_length
  rw [← verifiedHidden_length]
  apply map_eq_chainSlots _ _ _ (chainTokens_length chain)
  intro column slot first token small readHidden readToken
  have valid : column < chain.acceptLength + 1 := by
    have inside := (List.getElem?_eq_some_iff.mp readHidden).1
    rwa [verifiedHidden_length] at inside
  have positive : 0 < K := by omega
  have capacity : inputs.acceptCapacity K = acceptBucket := by
    show acceptBucket * K / K = acceptBucket
    exact Nat.mul_div_cancel _ positive
  have start : inputs.startPosition row = request.context.startPosition chain := by
    simp only [RefreshInputs.startPosition, inputs, refreshInputs, List.getD_eq_getElem?_getD,
      List.getElem?_map, atRequest, atChain, Option.map_some, Option.getD_some, same,
      DraftContext.startPosition]
    by_cases none : chain.acceptLength = 0
    · simp [none]
    · rw [if_pos (by omega), if_neg none]
      push_cast
      rfl
  have lane : column * K + slot < acceptBucket * K := by
    calc column * K + slot < column * K + K := by omega
      _ = (column + 1) * K := by ring
      _ ≤ acceptBucket * K := Nat.mul_le_mul_right K (by omega)
  simp only [planSlot, address_div small, address_mod small]
  have hiddenCell : ((inputs.plainPlan K).hidden.getD row []).getD column [] = first := by
    show (((List.range inputs.nPerReq.length).map _).getD row []).getD column [] = first
    rw [range_row _ (by omega), capacity, range_cell _ _ (by omega), count, if_pos valid]
    show hidden.rows.getD _ _ = first
    have cell := chainRow_getD AcceptedChain.verifiedHidden (List.replicate inputs.flatChainHidden.width 0)
      verifiedHidden_length atChain valid
    rw [← sameHidden] at cell
    refine cell.trans ?_
    simp [List.getD_eq_getElem?_getD, readHidden]
  have tokenCell : ((inputs.plainPlan K).tokens.getD row []).getD column 0 = token := by
    show (((List.range inputs.batchSize).map _).getD row []).getD column 0 = token
    rw [range_row _ low, capacity, range_cell _ _ (by omega), RefreshInputs.token, count,
      if_pos valid, Nat.add_sub_cancel]
    have cell := chainRow_getD AcceptedChain.verifiedIds 0
      (fun chain => by simp [AcceptedChain.verifiedIds, AcceptedChain.acceptLength]) atChain
      (by omega : min (column + 1) chain.acceptLength < chain.acceptLength + 1)
    refine cell.trans ?_
    rw [List.getD_eq_getElem?_getD, ← chainTokens_getElem? chain valid, readToken, Option.getD_some]
  have positionCell : ((inputs.plainPlan K).posIds.getD row []).getD (column * K + slot) 0 =
      request.context.startPosition chain + column + 1 + slot := by
    show (((List.range inputs.batchSize).map _).getD row []).getD (column * K + slot) 0 = _
    rw [range_row _ low, capacity, RefreshInputs.posColumns_eq, List.map_map, range_cell _ _ lane, start]
    simp only [Function.comp, address_div small, address_mod small]
    push_cast
    ring
  rw [hiddenCell, tokenCell, positionCell]

end plan

/-- What a refresh gives one request: its kept slots and as many new ones as its chain needs. -/
theorem refreshDraftState_row {T : Type} {worker : SpecBlockWorker} {info : SpecBlockVerifyInput T}
    {verifiedId : List Nat} {verifiedHidden : List T} {accepts seqLens : List Nat}
    {replay : Nat → RefreshReplay T} {next : SpecBlockDraftInput T}
    {pool final : SpecBlockKVPool}
    (ran : refreshDraftState worker info verifiedId verifiedHidden accepts replay seqLens pool =
      .ok next final) {row acceptLen count position : Nat} {loc : List Nat}
    (accepted : accepts[row]? = some acceptLen) (atLoc : info.crossLoc[row]? = some loc)
    (atCount : info.crossCount[row]? = some count)
    (atPosition : info.crossPosition[row]? = some position) :
    ∃ new : List Nat, new.length = (acceptLen + 1) * worker.K ∧
      next.crossLoc[row]? =
        some ((if acceptLen = 0 then loc.take (loc.length - worker.K) else loc) ++ new) ∧
      next.crossCount[row]? =
        some ((if acceptLen = 0 then count - worker.K else count) + (acceptLen + 1) * worker.K) ∧
      next.crossPosition[row]? =
        some (if acceptLen = 0 then position else position + 1 + (acceptLen + 1)) := by
  obtain ⟨rolled, between, newIndices, rows, rollback, allocated, assembled, rfl⟩ :=
    refreshDraftState_ok ran
  obtain ⟨oldLoc, oldCount, readLoc, readCount, rolledLoc, rolledCount⟩ :=
    rollbackRejected_row rollback row acceptLen accepted
  obtain ⟨-, sizes⟩ := allocEach_ledger allocated
  obtain ⟨-, each⟩ := refreshRows_row assembled
  obtain ⟨hiddenState, token, oldPosition, rowLoc, new, rowCount, -, -, readPosition, here, atNew,
    counted, built⟩ := each row acceptLen accepted
  obtain rfl : oldLoc = loc := Option.some.inj (readLoc.symm.trans atLoc)
  obtain rfl : oldCount = count := Option.some.inj (readCount.symm.trans atCount)
  obtain rfl : oldPosition = position := Option.some.inj (readPosition.symm.trans atPosition)
  have keptLoc := Option.some.inj (here.symm.trans rolledLoc)
  have keptCount := Option.some.inj (counted.symm.trans rolledCount)
  have sized := congrArg (fun lengths => lengths[row]?) sizes
  refine ⟨new, by simpa [atNew, accepted] using sized, ?_, ?_, ?_⟩
  · simp [SpecBlockDraftInput.assemble, built, keptLoc]
  · simp [SpecBlockDraftInput.assemble, built, keptCount]
  · simp [SpecBlockDraftInput.assemble, built]

section scatter

variable {granted : List (List Nat)} {plan : SpecBlockRefreshTensorPlan V Nat} {maxSlots : Nat}
  {memory kv : Nat → Option (CrossSlot (List V))}

/-- A store of the scatter goes to a granted slot of some row. -/
theorem mem_setKvPadded {entry : Nat × Option (CrossSlot (List V))}
    (sized : ∀ row loc, granted[row]? = some loc → plan.newCrossValidSlots.getD row 0 = loc.length)
    (fits : ∀ loc ∈ granted, loc.length ≤ maxSlots) :
    entry ∈ setKvPadded K maxSlots plan granted ↔ ∃ row loc lane slot, granted[row]? = some loc ∧
      loc[lane]? = some slot ∧ entry = (slot, some (planSlot K plan row lane)) := by
  have cell (row lane : Nat) (loc : List Nat) (slot : Nat) (atRow : granted[row]? = some loc)
      (atLane : loc[lane]? = some slot) (inside : lane < maxSlots) :
      (padded maxSlots granted).cell 0 row lane = slot := by
    simp [Matrix2.cell, padded, List.getD_eq_getElem?_getD, atRow, atLane, inside]
  simp only [setKvPadded, List.mem_flatMap, List.mem_range, List.mem_map, List.mem_filter,
    decide_eq_true_eq]
  constructor
  · rintro ⟨row, low, lane, ⟨inside, valid⟩, rfl⟩
    have atRow := List.getElem?_eq_getElem low
    rw [sized row _ atRow] at valid
    have atLane := List.getElem?_eq_getElem valid
    exact ⟨row, _, lane, _, atRow, atLane, by rw [cell row lane _ _ atRow atLane inside]⟩
  · rintro ⟨row, loc, lane, slot, atRow, atLane, rfl⟩
    have valid := (List.getElem?_eq_some_iff.mp atLane).1
    have inside := Nat.lt_of_lt_of_le valid (fits loc (List.mem_of_getElem? atRow))
    refine ⟨row, (List.getElem?_eq_some_iff.mp atRow).1, lane, ⟨inside, ?_⟩, ?_⟩
    · rw [sized row loc atRow]
      exact valid
    · rw [cell row lane loc slot atRow atLane inside]

/-- The scatter writes a row's slots in order, when no slot is granted twice. -/
theorem setKvPadded_granted (written : Outcome memory (setKvPadded K maxSlots plan granted) kv)
    (sized : ∀ row loc, granted[row]? = some loc → plan.newCrossValidSlots.getD row 0 = loc.length)
    (fits : ∀ loc ∈ granted, loc.length ≤ maxSlots) (distinct : granted.flatten.Nodup)
    {row : Nat} {loc : List Nat} (atRow : granted[row]? = some loc) :
    loc.map kv = ((List.range loc.length).map (planSlot K plan row)).map some := by
  obtain ⟨each, apart⟩ := List.nodup_flatten.mp distinct
  apply List.ext_getElem?
  intro lane
  by_cases valid : lane < loc.length
  · have atLane := List.getElem?_eq_getElem valid
    have stored := written.agreed
      ((mem_setKvPadded sized fits).mpr ⟨row, loc, lane, loc[lane], atRow, atLane, rfl⟩) (by
        intro entry member here
        obtain ⟨other, others, otherLane, slot, atOther, atSlot, rfl⟩ :=
          (mem_setKvPadded sized fits).mp member
        obtain rfl : slot = loc[lane] := here
        have sameRow : other = row := by
          by_contra different
          have disjoint : List.Disjoint others loc := by
            obtain ⟨low, rfl⟩ := List.getElem?_eq_some_iff.mp atOther
            obtain ⟨high, rfl⟩ := List.getElem?_eq_some_iff.mp atRow
            rcases Nat.lt_or_gt_of_ne different with before | after
            · exact List.pairwise_iff_getElem.mp apart _ _ low high before
            · exact (List.pairwise_iff_getElem.mp apart _ _ high low after).symm
          exact disjoint (List.mem_of_getElem? atSlot) (List.mem_of_getElem? atLane)
        subst sameRow
        obtain rfl : others = loc := Option.some.inj (atOther.symm.trans atRow)
        have sameLane : otherLane = lane := by
          have nodup := each others (List.mem_of_getElem? atRow)
          obtain ⟨inside, same⟩ := List.getElem?_eq_some_iff.mp atSlot
          exact (List.Nodup.getElem_inj_iff nodup).mp same
        rw [sameLane])
    simp [valid, stored]
  · rw [List.getElem?_eq_none (by simp; omega), List.getElem?_eq_none (by simp; omega)]

theorem setKvPadded_frame (written : Outcome memory (setKvPadded K maxSlots plan granted) kv)
    (sized : ∀ row loc, granted[row]? = some loc → plan.newCrossValidSlots.getD row 0 = loc.length)
    (fits : ∀ loc ∈ granted, loc.length ≤ maxSlots) {slot : Nat} (other : slot ∉ granted.flatten) :
    kv slot = memory slot := by
  apply written.frame
  intro entry member here
  obtain ⟨row, loc, lane, written, atRow, atLane, rfl⟩ := (mem_setKvPadded sized fits).mp member
  obtain rfl : written = slot := here
  exact other (List.mem_flatten.mpr
    ⟨loc, List.mem_of_getElem? atRow, List.mem_of_getElem? atLane⟩)

end scatter

end SpecBlock.Draft
