import SpecBlock.Serving.OverlapCommit

/-!
# Every run of the overlap worker

Admission, processing, finishing, the prefix cache and the free list keep slots accounted
for whatever is accepted; the decode rounds do when they accept first nodes in order. So in
every run of such rounds each row holds its committed entries, and the next round commits
its paths exactly when it is such a round too.
-/

namespace SpecBlock.Serving

variable {E : Type} {entry : List Nat → E} {allocLenPerDecode : Nat} {state : OverlapState E}

section steps

theorem allocTokenSlots_ok {numTokens : Nat} {free locs freePages : List Nat}
    (allocated : allocTokenSlots numTokens free = .ok (locs, freePages)) :
    locs = free.take numTokens ∧ freePages = free.drop numTokens ∧ numTokens ≤ free.length := by
  unfold allocTokenSlots at allocated
  by_cases short : free.length < numTokens
  · simp [short] at allocated
  · simp only [short, if_false, Except.ok.injEq, Prod.mk.injEq] at allocated
    exact ⟨allocated.1.symm, allocated.2.symm, by omega⟩

/-- The row of an admitted request: its cached slots, then its new ones. -/
theorem admitted_row (reqPoolIdx total : Nat) (cached locs : List Nat) (table : ReqToToken)
    (count : cached.length + locs.length = total) :
    ∀ position < total, (cached ++ locs)[position]? = some (assignReqToTokenPool
      [(reqPoolIdx, 0, cached.length), (reqPoolIdx, cached.length, total)] (cached ++ locs) table
      reqPoolIdx position) := by
  intro position inside
  simp only [assignReqToTokenPool, Nat.sub_zero, true_and, List.drop_left]
  by_cases early : position < cached.length
  · rw [if_neg (by omega), if_pos (by omega), List.getD_eq_getElem?_getD,
      List.getElem?_append_left early, List.getElem?_eq_getElem early]
    rfl
  · have within : position - cached.length < locs.length := by omega
    rw [if_pos (by omega), List.getD_eq_getElem?_getD, List.getElem?_append_right (by omega),
      List.getElem?_eq_getElem within]
    rfl

/-- Processing an accept length moves committed tokens under the prefix cache's reach. -/
theorem Orderly.process (orderly : state.Orderly entry allocLenPerDecode) (position acceptLen : Nat)
    (pending : List Nat) (req : OverlapReq) (here : state.reqs[position]? = some req)
    (waiting : req.pending = acceptLen :: pending) :
    OverlapState.Orderly entry allocLenPerDecode
      { state with
        reqs := state.reqs.set position
          { req with kvCommittedLen := req.kvCommittedLen + acceptLen, pending := pending } } := by
  generalize afterSame : { req with
    kvCommittedLen := req.kvCommittedLen + acceptLen, pending := pending } = after
  have member : req ∈ state.reqs := List.mem_of_getElem? here
  -- Every request of the new list stands for one of the old list with the same slots.
  have origin : ∀ other ∈ state.reqs.set position after, ∃ before ∈ state.reqs,
      other.reqPoolIdx = before.reqPoolIdx ∧ other.seqLen = before.seqLen ∧
      other.kvAllocatedLen = before.kvAllocatedLen ∧
      before.kvCommittedLen ≤ other.kvCommittedLen ∧
      other.kvCommittedLen + other.pending.sum = before.kvCommittedLen + before.pending.sum ∧
      ∀ acceptLen ∈ other.pending, acceptLen ∈ before.pending := by
    intro other otherMember
    rcases List.mem_or_eq_of_mem_set otherMember with kept | rfl
    · exact ⟨other, kept, rfl, rfl, rfl, Nat.le_refl _, rfl, fun _ member => member⟩
    · refine ⟨req, member, ?_⟩
      subst afterSame
      refine ⟨rfl, rfl, rfl, Nat.le_add_right _ _, ?_, ?_⟩
      · rw [waiting, List.sum_cons]
        exact Nat.add_assoc _ _ _
      · intro length lengthMember
        rw [waiting]
        exact List.mem_cons_of_mem _ lengthMember
  have rows : ((state.reqs.set position after).map OverlapReq.reqPoolIdx).Nodup := by
    rw [List.map_set]
    have same : (state.reqs.map OverlapReq.reqPoolIdx)[position]? = some after.reqPoolIdx := by
      rw [List.getElem?_map, here, ← afterSame]
      rfl
    have bound := (List.getElem?_eq_some_iff.mp same).1
    rw [List.getElem?_eq_getElem bound, Option.some_inj] at same
    rw [← same, List.set_getElem_self]
    exact orderly.rows
  constructor
  · exact rows
  · exact orderly.pages
  · intro other otherMember
    obtain ⟨before, beforeMember, rowSame, seqSame, allocSame, -, sumSame, fewer⟩ :=
      origin other otherMember
    obtain ⟨sum, inside, bounded⟩ := orderly.lengths before beforeMember
    exact ⟨by omega, by omega, fun length lengthMember => bounded length (fewer length lengthMember)⟩
  · rintro slot ⟨other, otherMember, index, inside, rfl⟩
    obtain ⟨before, beforeMember, rowSame, -, allocSame, -⟩ := origin other otherMember
    exact orderly.held _ ⟨before, beforeMember, index, by omega, by rw [← rowSame]⟩
  · exact orderly.cacheHeld
  · intro first firstMember index above inside second secondMember otherIndex otherInside same
    obtain ⟨before, beforeMember, rowSame, -, allocSame, committed, -⟩ := origin first firstMember
    obtain ⟨other, otherMember, otherRowSame, -, otherAllocSame, -⟩ := origin second secondMember
    simp only [rowSame, otherRowSame] at same
    obtain ⟨reqSame, indexSame⟩ := orderly.exclusive before beforeMember index (by omega) (by omega)
      other otherMember otherIndex (by omega) same
    refine ⟨List.inj_on_of_nodup_map rows firstMember secondMember ?_, indexSame⟩
    rw [rowSame, otherRowSame, reqSame]
  · intro other otherMember index above inside cached cachedMember
    obtain ⟨before, beforeMember, rowSame, -, allocSame, committed, -⟩ := origin other otherMember
    simp only [rowSame]
    exact orderly.uncached before beforeMember index (by omega) (by omega) cached cachedMember
  · intro other otherMember
    obtain ⟨before, beforeMember, rowSame, seqSame, -⟩ := origin other otherMember
    simp only [rowSame, seqSame]
    exact orderly.contents before beforeMember
  · exact orderly.cacheContents

theorem Orderly.finish (orderly : state.Orderly entry allocLenPerDecode) (position : Nat)
    (req : OverlapReq) (here : state.reqs[position]? = some req) :
    OverlapState.Orderly entry allocLenPerDecode
      { state with
        reqs := state.reqs.eraseIdx position
        freePages := state.freePages ++
          (List.range (req.kvAllocatedLen - req.kvCommittedLen)).map
            (fun index => state.reqToToken req.reqPoolIdx (req.kvCommittedLen + index)) } := by
  have member : req ∈ state.reqs := List.mem_of_getElem? here
  have others : ∀ other ∈ state.reqs.eraseIdx position, other ∈ state.reqs ∧ other ≠ req := by
    intro other otherMember
    obtain ⟨index, apart, read⟩ := List.mem_eraseIdx_iff_getElem?.mp otherMember
    refine ⟨List.mem_of_getElem? read, ?_⟩
    rintro rfl
    have distinct : state.reqs.Nodup := List.Nodup.of_map _ orderly.rows
    exact apart ((List.getElem?_inj (List.getElem?_eq_some_iff.mp read).1 distinct).mp
      (read.trans here.symm))
  have returned : ∀ slot ∈ (List.range (req.kvAllocatedLen - req.kvCommittedLen)).map
      (fun index => state.reqToToken req.reqPoolIdx (req.kvCommittedLen + index)),
      ∃ index, req.kvCommittedLen ≤ index ∧ index < req.kvAllocatedLen ∧
        slot = state.reqToToken req.reqPoolIdx index := by
    intro slot slotMember
    obtain ⟨index, indexMember, rfl⟩ := List.mem_map.mp slotMember
    have bound := List.mem_range.mp indexMember
    exact ⟨req.kvCommittedLen + index, by omega, by omega, rfl⟩
  constructor
  · exact orderly.rows.sublist ((List.eraseIdx_sublist _ _).map _)
  · apply List.nodup_append'.mpr ⟨orderly.pages, ?_, ?_⟩
    · apply List.Nodup.map_on _ List.nodup_range
      intro index indexMember other otherMember same
      have bound := List.mem_range.mp indexMember
      have otherBound := List.mem_range.mp otherMember
      have positions := (orderly.exclusive req member (req.kvCommittedLen + index) (by omega)
        (by omega) req member (req.kvCommittedLen + other) (by omega) same).2
      omega
    · intro slot free slotMember
      obtain ⟨index, above, inside, rfl⟩ := returned slot slotMember
      exact orderly.held _ ⟨req, member, index, inside, rfl⟩ free
  · intro other otherMember
    exact orderly.lengths other (others other otherMember).1
  · rintro slot ⟨other, otherMember, otherIndex, otherInside, rfl⟩ free
    obtain ⟨known, apart⟩ := others other otherMember
    rcases List.mem_append.mp free with old | new
    · exact orderly.held _ ⟨other, known, otherIndex, otherInside, rfl⟩ old
    · obtain ⟨index, above, inside, same⟩ := returned _ new
      exact apart (orderly.exclusive req member index above inside other known otherIndex
        otherInside same.symm).1.symm
  · intro cached cachedMember free
    rcases List.mem_append.mp free with old | new
    · exact orderly.cacheHeld cached cachedMember old
    · obtain ⟨index, above, inside, same⟩ := returned _ new
      exact orderly.uncached req member index above inside cached cachedMember same
  · intro first firstMember index above inside second secondMember
    exact orderly.exclusive first (others first firstMember).1 index above inside second
      (others second secondMember).1
  · intro other otherMember
    exact orderly.uncached other (others other otherMember).1
  · intro other otherMember
    exact orderly.contents other (others other otherMember).1
  · exact orderly.cacheContents

theorem Orderly.share (orderly : state.Orderly entry allocLenPerDecode) (req : OverlapReq)
    (member : req ∈ state.reqs) (position : Nat) (committed : position < req.kvCommittedLen) :
    OverlapState.Orderly entry allocLenPerDecode
      { state with
        cache := (state.reqToToken req.reqPoolIdx position,
          (state.history req.reqPoolIdx).take (position + 1)) :: state.cache } := by
  obtain ⟨sum, within, -⟩ := orderly.lengths req member
  constructor
  · exact orderly.rows
  · exact orderly.pages
  · exact orderly.lengths
  · exact orderly.held
  · intro cached cachedMember
    rcases List.mem_cons.mp cachedMember with rfl | known
    · exact orderly.held _ ⟨req, member, position, by omega, rfl⟩
    · exact orderly.cacheHeld cached known
  · exact orderly.exclusive
  · intro other otherMember index above inside cached cachedMember same
    rcases List.mem_cons.mp cachedMember with rfl | known
    · obtain ⟨rfl, indexSame⟩ := orderly.exclusive other otherMember index above inside req member
        position (by omega) same.symm
      omega
    · exact orderly.uncached other otherMember index above inside cached known same
  · exact orderly.contents
  · intro cached cachedMember
    rcases List.mem_cons.mp cachedMember with rfl | known
    · exact (orderly.contents req member).2 position (by omega)
    · exact orderly.cacheContents cached known

/-- A committed position may turn to a cached slot of the same tokens. -/
theorem Orderly.exchange (orderly : state.Orderly entry allocLenPerDecode) (req : OverlapReq)
    (member : req ∈ state.reqs) (position slot : Nat) (committed : position < req.kvCommittedLen)
    (found : (slot, (state.history req.reqPoolIdx).take (position + 1)) ∈ state.cache) :
    OverlapState.Orderly entry allocLenPerDecode
      { state with reqToToken := remapPosition req.reqPoolIdx position slot state.reqToToken } := by
  -- Beyond the committed tokens nothing moves.
  have kept : ∀ other ∈ state.reqs, ∀ index, other.kvCommittedLen ≤ index →
      remapPosition req.reqPoolIdx position slot state.reqToToken other.reqPoolIdx index =
        state.reqToToken other.reqPoolIdx index := by
    intro other otherMember index above
    apply if_neg
    rintro ⟨rowSame, rfl⟩
    obtain rfl := List.inj_on_of_nodup_map orderly.rows otherMember member rowSame
    omega
  constructor
  · exact orderly.rows
  · exact orderly.pages
  · exact orderly.lengths
  · rintro target ⟨other, otherMember, index, inside, rfl⟩
    show remapPosition req.reqPoolIdx position slot state.reqToToken other.reqPoolIdx index ∉ _
    unfold remapPosition
    by_cases here : other.reqPoolIdx = req.reqPoolIdx ∧ index = position
    · rw [if_pos here]
      exact orderly.cacheHeld _ found
    · rw [if_neg here]
      exact orderly.held _ ⟨other, otherMember, index, inside, rfl⟩
  · exact orderly.cacheHeld
  · intro first firstMember index above inside second secondMember otherIndex otherInside same
    change remapPosition _ _ _ _ _ _ = remapPosition _ _ _ _ _ _ at same
    rw [kept first firstMember index above] at same
    unfold remapPosition at same
    by_cases here : second.reqPoolIdx = req.reqPoolIdx ∧ otherIndex = position
    · rw [if_pos here] at same
      exact (orderly.uncached first firstMember index above inside _ found same.symm).elim
    · rw [if_neg here] at same
      exact orderly.exclusive first firstMember index above inside second secondMember otherIndex
        otherInside same
  · intro other otherMember index above inside
    show ∀ cached ∈ state.cache, cached.1 ≠ remapPosition _ _ _ _ _ _
    rw [kept other otherMember index above]
    exact orderly.uncached other otherMember index above inside
  · intro other otherMember
    obtain ⟨length, entries⟩ := orderly.contents other otherMember
    refine ⟨length, ?_⟩
    intro index before
    show state.kv (remapPosition _ _ _ _ _ _) = _
    unfold remapPosition
    by_cases here : other.reqPoolIdx = req.reqPoolIdx ∧ index = position
    · obtain rfl := List.inj_on_of_nodup_map orderly.rows otherMember member here.1
      rw [if_pos here, here.2]
      exact orderly.cacheContents _ found
    · rw [if_neg here]
      exact entries index before
  · exact orderly.cacheContents

theorem Orderly.evict (orderly : state.Orderly entry allocLenPerDecode)
    (cache : List (Nat × List Nat)) (fewer : ∀ cached ∈ cache, cached ∈ state.cache) :
    OverlapState.Orderly entry allocLenPerDecode { state with cache := cache } where
  rows := orderly.rows
  pages := orderly.pages
  lengths := orderly.lengths
  held := orderly.held
  cacheHeld cached member := orderly.cacheHeld cached (fewer cached member)
  exclusive := orderly.exclusive
  uncached req member position above inside cached cachedMember :=
    orderly.uncached req member position above inside cached (fewer cached cachedMember)
  contents := orderly.contents
  cacheContents cached member := orderly.cacheContents cached (fewer cached member)

theorem Orderly.reclaim (orderly : state.Orderly entry allocLenPerDecode)
    (slots freePages : List Nat) (distinct : slots.Nodup)
    (idle : ∀ slot ∈ slots, slot ∉ state.freePages ∧ ¬ state.Mapped slot ∧
      ∀ cached ∈ state.cache, cached.1 ≠ slot)
    (listed : freePages.Perm (state.freePages ++ slots)) :
    OverlapState.Orderly entry allocLenPerDecode { state with freePages := freePages } := by
  have freed : ∀ slot ∈ freePages, slot ∈ state.freePages ∨ slot ∈ slots :=
    fun slot member => List.mem_append.mp (listed.subset member)
  constructor
  · exact orderly.rows
  · rw [listed.nodup_iff]
    exact List.nodup_append'.mpr ⟨orderly.pages, distinct, fun slot old new => (idle slot new).1 old⟩
  · exact orderly.lengths
  · intro slot mapped free
    rcases freed slot free with old | new
    · exact orderly.held slot mapped old
    · exact (idle slot new).2.1 mapped
  · intro cached member free
    rcases freed _ free with old | new
    · exact orderly.cacheHeld cached member old
    · exact (idle _ new).2.2 cached member rfl
  · exact orderly.exclusive
  · exact orderly.uncached
  · exact orderly.contents
  · exact orderly.cacheContents

/-- A prefilled request starts in cached slots and goes on in slots of its own. -/
theorem Orderly.prefill (orderly : state.Orderly entry allocLenPerDecode) (reqPoolIdx : Nat)
    (prompt cached locs freePages : List Nat) (kv : Nat → E) (history : Nat → List Nat)
    (unused : ∀ req ∈ state.reqs, req.reqPoolIdx ≠ reqPoolIdx)
    (short : cached.length ≤ prompt.length)
    (found : ∀ (position slot : Nat), cached[position]? = some slot →
      (slot, prompt.take (position + 1)) ∈ state.cache)
    (allocated : allocTokenSlots (prompt.length - cached.length) state.freePages =
      .ok (locs, freePages))
    (written : Stores.Outcome state.kv (locs.zip ((List.range locs.length).map
      (fun index => entry (prompt.take (cached.length + index + 1))))) kv)
    (recorded : history reqPoolIdx = prompt ∧
      ∀ req ∈ state.reqs, history req.reqPoolIdx = state.history req.reqPoolIdx) :
    OverlapState.Orderly entry allocLenPerDecode
      { state with
        reqs := state.reqs ++ [⟨reqPoolIdx, prompt.length, prompt.length, prompt.length, []⟩]
        freePages := freePages
        reqToToken := assignReqToTokenPool [(reqPoolIdx, 0, cached.length),
          (reqPoolIdx, cached.length, prompt.length)] (cached ++ locs) state.reqToToken
        kv := kv
        history := history } := by
  obtain ⟨locsSame, freeSame, enough⟩ := allocTokenSlots_ok allocated
  have count : cached.length + locs.length = prompt.length := by
    rw [locsSame, List.length_take]
    omega
  have row := admitted_row reqPoolIdx prompt.length cached locs state.reqToToken count
  generalize tableSame : assignReqToTokenPool [(reqPoolIdx, 0, cached.length),
    (reqPoolIdx, cached.length, prompt.length)] (cached ++ locs) state.reqToToken = table at row ⊢
  have distinct : locs.Nodup := by
    rw [locsSame]
    exact orderly.pages.sublist (List.take_sublist _ _)
  have wasFree : ∀ slot ∈ locs, slot ∈ state.freePages := by
    intro slot member
    rw [locsSame] at member
    exact List.mem_of_mem_take member
  have stillFree : ∀ slot ∈ freePages, slot ∈ state.freePages ∧ slot ∉ locs := by
    intro slot member
    rw [freeSame] at member
    refine ⟨List.mem_of_mem_drop member, ?_⟩
    rw [locsSame]
    exact fun taken => List.disjoint_take_drop orderly.pages (Nat.le_refl _) taken member
  -- The rows of the running requests, and the entries behind them, stay as they were.
  have kept : ∀ req ∈ state.reqs, table req.reqPoolIdx = state.reqToToken req.reqPoolIdx := by
    intro req member
    rw [← tableSame]
    apply assignReqToTokenPool_other
    intro range rangeMember same
    have rangeRow : range.1 = reqPoolIdx := by
      rcases List.mem_cons.mp rangeMember with rfl | last
      · rfl
      · rw [List.mem_singleton.mp last]
    exact unused req member (same.symm.trans rangeRow)
  have untouched : ∀ slot, slot ∉ state.freePages → kv slot = state.kv slot :=
    fun slot busy => written.zip_frame (fun member => busy (wasFree slot member))
  have admitted : ∀ position < prompt.length, (position < cached.length ∧
      (table reqPoolIdx position, prompt.take (position + 1)) ∈ state.cache) ∨
      (cached.length ≤ position ∧ table reqPoolIdx position ∈ locs ∧
        kv (table reqPoolIdx position) = entry (prompt.take (position + 1))) := by
    intro position inside
    have read := row position inside
    by_cases early : position < cached.length
    · rw [List.getElem?_append_left early] at read
      exact .inl ⟨early, found position _ read⟩
    · rw [List.getElem?_append_right (by omega)] at read
      have within : position - cached.length < locs.length := by omega
      have values := written.zip_eq distinct (by simp)
      have value := congrArg (fun entries => entries[position - cached.length]?) values
      simp only [List.getElem?_map, read, List.getElem?_range within, Option.map_some,
        Option.some_inj] at value
      rw [show cached.length + (position - cached.length) + 1 = position + 1 by omega] at value
      exact .inr ⟨by omega, List.mem_of_getElem? read, value⟩
  have cases : ∀ req ∈ state.reqs ++ [⟨reqPoolIdx, prompt.length, prompt.length, prompt.length, []⟩],
      req ∈ state.reqs ∨ req = ⟨reqPoolIdx, prompt.length, prompt.length, prompt.length, []⟩ := by
    intro req member
    rcases List.mem_append.mp member with old | new
    · exact .inl old
    · exact .inr (List.mem_singleton.mp new)
  -- Slots reserved for a running request are neither cached nor handed to the new one.
  have apart : ∀ req ∈ state.reqs, ∀ position, req.kvCommittedLen ≤ position →
      position < req.kvAllocatedLen → ∀ other < prompt.length,
      state.reqToToken req.reqPoolIdx position ≠ table reqPoolIdx other := by
    intro req member position above inside other otherInside same
    rcases admitted other otherInside with ⟨-, shared⟩ | ⟨-, fresh, -⟩
    · exact orderly.uncached req member position above inside _ shared same.symm
    · exact orderly.held _ ⟨req, member, position, inside, same⟩ (wasFree _ fresh)
  constructor
  · rw [List.map_append]
    apply List.nodup_append'.mpr ⟨orderly.rows, List.nodup_singleton _, ?_⟩
    intro index old new
    obtain ⟨req, member, rfl⟩ := List.mem_map.mp old
    exact unused req member (List.mem_singleton.mp new)
  · rw [freeSame]
    exact orderly.pages.sublist (List.drop_sublist _ _)
  · intro req member
    rcases cases req member with old | rfl
    · exact orderly.lengths req old
    · exact ⟨rfl, Nat.le_refl _, by simp⟩
  · rintro slot ⟨req, member, position, inside, rfl⟩ free
    obtain ⟨wasThere, notTaken⟩ := stillFree _ free
    rcases cases req member with old | rfl
    · exact orderly.held _ ⟨req, old, position, inside, (congrFun (kept req old) position).symm⟩
        wasThere
    · rcases admitted position inside with ⟨-, shared⟩ | ⟨-, fresh, -⟩
      · exact orderly.cacheHeld _ shared wasThere
      · exact notTaken fresh
  · intro entry member free
    exact orderly.cacheHeld entry member (stillFree _ free).1
  · intro req member position above inside other otherMember otherPosition otherInside same
    rcases cases req member with old | rfl
    · change table req.reqPoolIdx position = table other.reqPoolIdx otherPosition at same
      rw [kept req old] at same
      rcases cases other otherMember with otherOld | rfl
      · rw [kept other otherOld] at same
        exact orderly.exclusive req old position above inside other otherOld otherPosition
          otherInside same
      · exact (apart req old position above inside otherPosition otherInside same).elim
    · exact absurd inside (Nat.not_lt.mpr above)
  · intro req member position above inside entry entryMember
    rcases cases req member with old | rfl
    · show entry.1 ≠ table req.reqPoolIdx position
      rw [kept req old]
      exact orderly.uncached req old position above inside entry entryMember
    · exact absurd inside (Nat.not_lt.mpr above)
  · intro req member
    rcases cases req member with old | rfl
    · obtain ⟨length, entries⟩ := orderly.contents req old
      have within := (orderly.lengths req old).2.1
      show (history req.reqPoolIdx).length = req.seqLen ∧ ∀ position < req.seqLen,
        kv (table req.reqPoolIdx position) = entry ((history req.reqPoolIdx).take (position + 1))
      rw [recorded.2 req old]
      refine ⟨length, ?_⟩
      intro position inside
      rw [kept req old, untouched _ (orderly.held _ ⟨req, old, position, by omega, rfl⟩)]
      exact entries position inside
    · show (history reqPoolIdx).length = prompt.length ∧ ∀ position < prompt.length,
        kv (table reqPoolIdx position) = entry ((history reqPoolIdx).take (position + 1))
      rw [recorded.1]
      refine ⟨rfl, ?_⟩
      intro position inside
      rcases admitted position inside with ⟨-, shared⟩ | ⟨-, -, value⟩
      · rw [untouched _ (orderly.cacheHeld _ shared)]
        exact orderly.cacheContents _ shared
      · exact value
  · intro shared member
    show kv shared.1 = entry shared.2
    rw [untouched _ (orderly.cacheHeld _ member)]
    exact orderly.cacheContents _ member

end steps

/-- Every step keeps slots accounted for, when decode rounds accept first nodes in order. -/
theorem overlapStep_orderly {following : OverlapState E}
    (orderly : state.Orderly entry allocLenPerDecode)
    (taken : OverlapStep entry allocLenPerDecode DecodeRound.InOrder state following) :
    following.Orderly entry allocLenPerDecode := by
  cases taken with
  | prefill reqPoolIdx prompt cached locs freePages kv history unused short found allocated
      written recorded =>
    exact Orderly.prefill orderly reqPoolIdx prompt cached locs freePages kv history unused short
      found allocated written recorded
  | decode round runs permitted => exact runs.orderly orderly permitted
  | process position acceptLen pending req here waiting =>
    exact Orderly.process orderly position acceptLen pending req here waiting
  | finish position req here => exact Orderly.finish orderly position req here
  | share req member position committed =>
    exact Orderly.share orderly req member position committed
  | exchange req member position slot committed found =>
    exact Orderly.exchange orderly req member position slot committed found
  | evict cache fewer => exact Orderly.evict orderly cache fewer
  | reclaim slots freePages distinct idle listed =>
    exact Orderly.reclaim orderly slots freePages distinct idle listed

theorem idle_orderly (reqs : state.reqs = []) (cache : state.cache = [])
    (pages : state.freePages.Nodup) : state.Orderly entry allocLenPerDecode := by
  constructor
  · simp [reqs]
  · exact pages
  · simp [reqs]
  · simp [OverlapState.Mapped, reqs]
  · simp [cache]
  · simp [reqs]
  · simp [reqs]
  · simp [OverlapState.RowsCommitted, reqs]
  · simp [cache]

/-- In every run whose rounds accept first nodes in order each row holds its committed entries,
and the next round commits its paths exactly when it accepts first nodes in order too. -/
theorem overlap_rows_committed (entry : List Nat → E) (allocLenPerDecode : Nat)
    (state : OverlapState E)
    (reached : (overlapWorker entry allocLenPerDecode DecodeRound.InOrder).Reachable state) :
    state.RowsCommitted entry ∧
    ∀ round : DecodeRound E, round.Runs entry allocLenPerDecode state →
      (CommitsPaths round.draftTokenNum round.reqs round.reqToToken
        (round.following state).reqToToken round.paths ↔ round.InOrder) := by
  have orderly : state.Orderly entry allocLenPerDecode :=
    reached.invariant (fun state => state.Orderly entry allocLenPerDecode)
      (fun _ initial => idle_orderly initial.1 initial.2.1 initial.2.2)
      (fun _ _ kept taken => overlapStep_orderly kept taken)
  exact ⟨orderly.contents, fun round runs => runs.commits_iff orderly⟩

/-- A server with ten free slots. The entry of a position is the tokens up to it. -/
def idleServer : OverlapState (List Nat) where
  reqs := []
  freePages := [1, 2, 3, 4, 5, 6, 7, 8, 9, 10]
  reqToToken := fun _ _ => 0
  kv := fun _ => []
  cache := []
  history := fun _ => []

/-- The server after the prompt `[3]` is prefilled. -/
def promptServer : OverlapState (List Nat) where
  reqs := [⟨0, 1, 1, 1, []⟩]
  freePages := [2, 3, 4, 5, 6, 7, 8, 9, 10]
  reqToToken := assignReqToTokenPool [(0, 0, 0), (0, 0, 1)] [1] (fun _ _ => 0)
  kv := Stores.store (fun _ => []) [(1, [3])]
  cache := []
  history := fun _ => [3]

/-- The prompt may be prefilled whatever decode rounds are allowed. -/
theorem promptServer_reachable (allowed : DecodeRound (List Nat) → Prop) :
    (overlapWorker id 3 allowed).Reachable promptServer := by
  have idle : (overlapWorker id 3 allowed).Reachable idleServer :=
    .start _ ⟨rfl, rfl, by decide⟩
  apply idle.step idleServer promptServer
  exact .prefill idleServer 0 [3] [] [1] _ _ _ (by simp [idleServer]) (by simp) (by simp) rfl
    (.listed _ _) (by simp [idleServer])

/-- A tree of three nodes: token 7 with the children 8 and 9. -/
def siblings : VerifyTree where
  below
    | 0 => [7]
    | 1 => [7, 8]
    | _ => [7, 9]

/-- A round that verifies the siblings and accepts one path. -/
def siblingRound (path : AcceptedPath) : DecodeRound (List Nat) where
  draftTokenNum := 3
  trees := [siblings]
  paths := [path]
  reqs := [⟨0, 1, 1, 7, []⟩]
  freePages := [8, 9, 10]
  reqToToken := assignReqToTokenPool [(0, 1, 7)] [2, 3, 4, 5, 6, 7] promptServer.reqToToken
  kv := Stores.store promptServer.kv [(2, [3, 7]), (3, [3, 7, 8]), (4, [3, 7, 9])]
  history := fun _ => [3] ++ path.tokens

theorem siblingRound_runs (path : AcceptedPath) (onTree : path.OnTree 3 siblings) :
    (siblingRound path).Runs id 3 promptServer where
  behind := by simp [promptServer]
  prepared := rfl
  fits := Nat.le_refl 3
  treeCount := rfl
  pathCount := rfl
  accepted := by simpa [siblingRound] using onTree
  written := .listed _ _
  recorded := by simp [siblingRound, promptServer]

/-- The path to the first child. -/
def siblingPath : AcceptedPath := ⟨[0, 1], [7, 8], rfl⟩

/-- The path to the second child. -/
def secondChild : AcceptedPath := ⟨[0, 2], [7, 9], rfl⟩

/-- Accepting the first child commits it, and the row stays right. -/
theorem overlap_rows_committed_first :
    promptServer.RowsCommitted id ∧
    CommitsPaths 3 (siblingRound siblingPath).reqs (siblingRound siblingPath).reqToToken
      ((siblingRound siblingPath).following promptServer).reqToToken [siblingPath] := by
  have onTree : siblingPath.OnTree 3 siblings := by
    refine ⟨rfl, ?_⟩
    intro step node read
    match step, read with
    | 0, read =>
      obtain rfl : 0 = node := by simpa [siblingPath] using read
      decide
    | 1, read =>
      obtain rfl : 1 = node := by simpa [siblingPath] using read
      decide
    | step + 2, read => simp [siblingPath] at read
  obtain ⟨rows, commits⟩ := overlap_rows_committed id 3 promptServer (promptServer_reachable _)
  exact ⟨rows, (commits _ (siblingRound_runs siblingPath onTree)).mpr
    (by simp [DecodeRound.InOrder, siblingRound, AcceptedPath.InOrder, siblingPath, List.range_succ])⟩

/-- Accepting the second child leaves the first child's entry under the committed position. -/
theorem overlap_commits_wrong_sibling :
    (overlapWorker id 3 (fun _ => True)).Reachable
      ((siblingRound secondChild).following promptServer) ∧
    ¬ CommitsPaths 3 (siblingRound secondChild).reqs (siblingRound secondChild).reqToToken
      ((siblingRound secondChild).following promptServer).reqToToken [secondChild] ∧
    ¬ ((siblingRound secondChild).following promptServer).RowsCommitted id := by
  have onTree : secondChild.OnTree 3 siblings := by
    refine ⟨rfl, ?_⟩
    intro step node read
    match step, read with
    | 0, read =>
      obtain rfl : 0 = node := by simpa [secondChild] using read
      decide
    | 1, read =>
      obtain rfl : 2 = node := by simpa [secondChild] using read
      decide
    | step + 2, read => simp [secondChild] at read
  refine ⟨?_, ?_, ?_⟩
  · exact .step promptServer _ (promptServer_reachable _)
      (.decode promptServer _ (siblingRound_runs secondChild onTree) trivial)
  · intro commits
    have slots := commits 0 ⟨0, 1, 1, 7, []⟩ secondChild rfl rfl
    revert slots
    decide
  · intro rows
    have entries := (rows ⟨0, 3, 1, 7, [2]⟩ (by decide)).2 2 (by decide)
    revert entries
    decide

end SpecBlock.Serving
