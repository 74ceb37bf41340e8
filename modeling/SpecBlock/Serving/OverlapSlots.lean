import Mathlib.Data.List.GetD
import SpecBlock.Serving.OverlapRounds

/-!
# Slots of the overlap worker stay in order

Past its committed tokens a request owns its slots alone: no other row, no earlier position
and no cached prefix refers to them. So a verify pass overwrites nothing that is committed,
and a request that finishes returns slots that are its own. This exclusiveness is what the
preparation of a round establishes for new slots and what every other step keeps.

The invariant also says what the entries are: each committed position and each cached slot
holds the entry of its tokens. A round keeps that part when the accepted nodes are the first
nodes of their tree.
-/

namespace SpecBlock.Serving

variable {E : Type} {entry : List Nat → E} {allocLenPerDecode : Nat}

section assignment

variable {ranges : List (Nat × Nat × Nat)} {locs : List Nat} {table : ReqToToken}

theorem assignReqToTokenPool_other (row : Nat) (other : ∀ range ∈ ranges, range.1 ≠ row)
    (locs : List Nat) (table : ReqToToken) : assignReqToTokenPool ranges locs table row = table row := by
  induction ranges generalizing locs table with
  | nil => rfl
  | cons range ranges ih =>
    obtain ⟨reqPoolIdx, start, stop⟩ := range
    have apart : ¬ row = reqPoolIdx := fun same => other _ List.mem_cons_self same.symm
    rw [assignReqToTokenPool,
      ih (fun range member => other range (List.mem_cons_of_mem _ member))]
    funext position
    simp [apart]

theorem assignReqToTokenPool_outside (distinct : (ranges.map (fun range => range.1)).Nodup)
    {row start stop position : Nat} (member : (row, start, stop) ∈ ranges)
    (outside : ¬ (start ≤ position ∧ position < stop)) (locs : List Nat) (table : ReqToToken) :
    assignReqToTokenPool ranges locs table row position = table row position := by
  induction ranges generalizing locs table with
  | nil => simp at member
  | cons range ranges ih =>
    obtain ⟨reqPoolIdx, start', stop'⟩ := range
    rw [List.map_cons, List.nodup_cons] at distinct
    rw [assignReqToTokenPool]
    rcases List.mem_cons.mp member with same | later
    · obtain ⟨rfl, rfl, rfl⟩ : row = reqPoolIdx ∧ start = start' ∧ stop = stop' := by
        simpa using same
      rw [assignReqToTokenPool_other row (fun range rangeMember here =>
        distinct.1 (List.mem_map.mpr ⟨range, rangeMember, here⟩))]
      exact if_neg (fun inside => outside inside.2)
    · rw [ih distinct.2 later]
      refine if_neg (fun inside => distinct.1 ?_)
      exact List.mem_map.mpr ⟨_, later, inside.1⟩

theorem assignReqToTokenPool_mem (distinct : (ranges.map (fun range => range.1)).Nodup)
    (enough : (ranges.map (fun range => range.2.2 - range.2.1)).sum ≤ locs.length)
    {row start stop position : Nat} (member : (row, start, stop) ∈ ranges)
    (inside : start ≤ position ∧ position < stop) :
    assignReqToTokenPool ranges locs table row position ∈ locs := by
  induction ranges generalizing locs table with
  | nil => simp at member
  | cons range ranges ih =>
    obtain ⟨reqPoolIdx, start', stop'⟩ := range
    rw [List.map_cons, List.nodup_cons] at distinct
    rw [List.map_cons, List.sum_cons] at enough
    simp only at enough
    rw [assignReqToTokenPool]
    rcases List.mem_cons.mp member with same | later
    · obtain ⟨rfl, rfl, rfl⟩ : row = reqPoolIdx ∧ start = start' ∧ stop = stop' := by
        simpa using same
      rw [assignReqToTokenPool_other row (fun range rangeMember here =>
        distinct.1 (List.mem_map.mpr ⟨range, rangeMember, here⟩)), if_pos ⟨rfl, inside⟩,
        List.getD_eq_getElem _ _ (by omega)]
      exact List.getElem_mem _
    · exact List.mem_of_mem_drop (ih distinct.2
        (by rw [List.length_drop]; omega) later)

theorem assignReqToTokenPool_inj (distinct : (ranges.map (fun range => range.1)).Nodup)
    (different : locs.Nodup)
    (enough : (ranges.map (fun range => range.2.2 - range.2.1)).sum ≤ locs.length)
    {row start stop position row' start' stop' position' : Nat}
    (member : (row, start, stop) ∈ ranges) (inside : start ≤ position ∧ position < stop)
    (member' : (row', start', stop') ∈ ranges) (inside' : start' ≤ position' ∧ position' < stop')
    (same : assignReqToTokenPool ranges locs table row position =
      assignReqToTokenPool ranges locs table row' position') : row = row' ∧ position = position' := by
  induction ranges generalizing locs table with
  | nil => simp at member
  | cons range ranges ih =>
    obtain ⟨reqPoolIdx, first, last⟩ := range
    rw [List.map_cons, List.nodup_cons] at distinct
    rw [List.map_cons, List.sum_cons] at enough
    simp only at enough
    rw [assignReqToTokenPool] at same
    have enoughLater : (ranges.map (fun range => range.2.2 - range.2.1)).sum ≤
        (locs.drop (last - first)).length := by
      rw [List.length_drop]
      omega
    have here : ∀ within, first ≤ within ∧ within < last → assignReqToTokenPool ranges
        (locs.drop (last - first)) (fun row position =>
          if row = reqPoolIdx ∧ first ≤ position ∧ position < last
          then locs.getD (position - first) 0 else table row position) reqPoolIdx within =
        locs.getD (within - first) 0 ∧ locs.getD (within - first) 0 ∈ locs.take (last - first) := by
      intro within bounds
      rw [assignReqToTokenPool_other reqPoolIdx (fun range rangeMember equal =>
        distinct.1 (List.mem_map.mpr ⟨range, rangeMember, equal⟩)), if_pos ⟨rfl, bounds⟩]
      refine ⟨rfl, ?_⟩
      rw [List.getD_eq_getElem _ _ (by omega)]
      exact List.mem_take_iff_getElem.mpr ⟨within - first, by omega, rfl⟩
    have later : ∀ {row start stop within : Nat}, (row, start, stop) ∈ ranges →
        start ≤ within ∧ within < stop → assignReqToTokenPool ranges (locs.drop (last - first))
          (fun row position => if row = reqPoolIdx ∧ first ≤ position ∧ position < last
            then locs.getD (position - first) 0 else table row position) row within ∈
          locs.drop (last - first) :=
      fun rangeMember bounds => assignReqToTokenPool_mem distinct.2 enoughLater rangeMember bounds
    have apart : ∀ slot, slot ∈ locs.take (last - first) → slot ∈ locs.drop (last - first) →
        False := by
      intro slot taken dropped
      exact List.disjoint_take_drop different (Nat.le_refl _) taken dropped
    rcases List.mem_cons.mp member with head | tail
    · obtain ⟨rfl, rfl, rfl⟩ : row = reqPoolIdx ∧ start = first ∧ stop = last := by simpa using head
      obtain ⟨value, taken⟩ := here position inside
      rcases List.mem_cons.mp member' with head' | tail'
      · obtain ⟨rfl, rfl, rfl⟩ : row' = row ∧ start' = start ∧ stop' = stop := by
          simpa using head'
        rw [value, (here position' inside').1, List.getD_eq_getElem _ _ (by omega),
          List.getD_eq_getElem _ _ (by omega)] at same
        have index := (List.Nodup.getElem_inj_iff different).mp same
        exact ⟨rfl, by omega⟩
      · rw [value] at same
        exact (apart _ taken (same ▸ later tail' inside')).elim
    · rcases List.mem_cons.mp member' with head' | tail'
      · obtain ⟨rfl, rfl, rfl⟩ : row' = reqPoolIdx ∧ start' = first ∧ stop' = last := by
          simpa using head'
        obtain ⟨value, taken⟩ := here position' inside'
        rw [value] at same
        exact (apart _ taken (same ▸ later tail inside)).elim
      · exact ih distinct.2 (different.sublist (List.drop_sublist _ _)) enoughLater
          tail tail' same

end assignment

/-- Slots are accounted for and hold the entries they stand for. -/
structure OverlapState.Orderly (entry : List Nat → E) (allocLenPerDecode : Nat)
    (state : OverlapState E) : Prop where
  rows : (state.reqs.map OverlapReq.reqPoolIdx).Nodup
  pages : state.freePages.Nodup
  lengths : ∀ req ∈ state.reqs, req.kvCommittedLen + req.pending.sum = req.seqLen ∧
    req.seqLen ≤ req.kvAllocatedLen ∧ ∀ acceptLen ∈ req.pending, acceptLen ≤ allocLenPerDecode
  held : ∀ slot, state.Mapped slot → slot ∉ state.freePages
  cacheHeld : ∀ cached ∈ state.cache, cached.1 ∉ state.freePages
  exclusive : ∀ req ∈ state.reqs, ∀ position, req.kvCommittedLen ≤ position →
    position < req.kvAllocatedLen → ∀ other ∈ state.reqs, ∀ otherPosition < other.kvAllocatedLen,
      state.reqToToken req.reqPoolIdx position = state.reqToToken other.reqPoolIdx otherPosition →
        req = other ∧ position = otherPosition
  uncached : ∀ req ∈ state.reqs, ∀ position, req.kvCommittedLen ≤ position →
    position < req.kvAllocatedLen → ∀ cached ∈ state.cache,
      cached.1 ≠ state.reqToToken req.reqPoolIdx position
  contents : state.RowsCommitted entry
  cacheContents : ∀ cached ∈ state.cache, state.kv cached.1 = entry cached.2

section preparation

variable {state : OverlapState E} {reqs : List OverlapReq} {freePages : List Nat}
  {table : ReqToToken}

/-- A request with its allocation topped up. -/
def OverlapReq.topped (allocLenPerDecode : Nat) (req : OverlapReq) : OverlapReq :=
  { req with kvAllocatedLen := req.kvAllocatedLen + req.needed allocLenPerDecode }

theorem prepareForDecode_ok {before : List OverlapReq} {free : List Nat} {rows : ReqToToken}
    (prepared : prepareForDecode allocLenPerDecode before free rows =
      .ok (reqs, freePages, table)) :
    (before.map (OverlapReq.needed allocLenPerDecode)).sum ≤ free.length ∧
    reqs = before.map (OverlapReq.topped allocLenPerDecode) ∧
    freePages = free.drop (before.map (OverlapReq.needed allocLenPerDecode)).sum ∧
    table = assignReqToTokenPool (before.map (fun req => (req.reqPoolIdx, req.kvAllocatedLen,
        req.kvAllocatedLen + req.needed allocLenPerDecode)))
      (free.take (before.map (OverlapReq.needed allocLenPerDecode)).sum) rows := by
  unfold prepareForDecode allocTokenSlots at prepared
  by_cases short : free.length < (before.map (OverlapReq.needed allocLenPerDecode)).sum
  · simp [short, bind, Except.bind] at prepared
  · simp only [short, if_false, bind, Except.bind, pure, Except.pure, Except.ok.injEq,
      Prod.mk.injEq] at prepared
    obtain ⟨rfl, rfl, rfl⟩ := prepared
    exact ⟨by omega, rfl, rfl, rfl⟩

/-- Where a row of the prepared table points: at its old slot, or past its old allocation at a
slot that was free. -/
theorem prepared_slot (orderly : state.Orderly entry allocLenPerDecode)
    (prepared : prepareForDecode allocLenPerDecode state.reqs state.freePages state.reqToToken =
      .ok (reqs, freePages, table)) (req : OverlapReq) (member : req ∈ state.reqs) :
    (∀ position < req.kvAllocatedLen,
      table req.reqPoolIdx position = state.reqToToken req.reqPoolIdx position) ∧
    (∀ position, req.kvAllocatedLen ≤ position →
      position < (req.topped allocLenPerDecode).kvAllocatedLen →
      table req.reqPoolIdx position ∈
        state.freePages.take (state.reqs.map (OverlapReq.needed allocLenPerDecode)).sum) := by
  obtain ⟨enough, -, -, rfl⟩ := prepareForDecode_ok prepared
  have ranged : (req.reqPoolIdx, req.kvAllocatedLen, req.kvAllocatedLen +
      req.needed allocLenPerDecode) ∈ state.reqs.map (fun req => (req.reqPoolIdx,
        req.kvAllocatedLen, req.kvAllocatedLen + req.needed allocLenPerDecode)) :=
    List.mem_map.mpr ⟨req, member, rfl⟩
  have distinct : ((state.reqs.map (fun req => (req.reqPoolIdx, req.kvAllocatedLen,
      req.kvAllocatedLen + req.needed allocLenPerDecode))).map (fun range => range.1)).Nodup := by
    rw [List.map_map]
    exact orderly.rows
  constructor
  · intro position below
    exact assignReqToTokenPool_outside distinct ranged (by omega) _ _
  · intro position above inside
    apply assignReqToTokenPool_mem distinct _ ranged ⟨above, inside⟩
    rw [List.map_map, List.length_take, Nat.min_eq_left enough]
    exact Nat.le_of_eq (congrArg List.sum (List.map_congr_left (fun other _ => by
      simp)))

/-- Topping up keeps the account, and leaves room for two rounds past the committed tokens. -/
theorem prepared_orderly (orderly : state.Orderly entry allocLenPerDecode)
    (prepared : prepareForDecode allocLenPerDecode state.reqs state.freePages state.reqToToken =
      .ok (reqs, freePages, table)) :
    OverlapState.Orderly entry allocLenPerDecode
      { state with reqs := reqs, freePages := freePages, reqToToken := table } ∧
    ∀ req ∈ reqs, req.kvCommittedLen + 2 * allocLenPerDecode ≤ req.kvAllocatedLen := by
  have slots := prepared_slot orderly prepared
  obtain ⟨enough, rfl, rfl, rfl⟩ := prepareForDecode_ok prepared
  generalize total : (state.reqs.map (OverlapReq.needed allocLenPerDecode)).sum = count at *
  generalize assigned : assignReqToTokenPool (state.reqs.map (fun req => (req.reqPoolIdx,
    req.kvAllocatedLen, req.kvAllocatedLen + req.needed allocLenPerDecode)))
    (state.freePages.take count) state.reqToToken = table at *
  have apart : ∀ slot ∈ state.freePages.take count, slot ∉ state.freePages.drop count :=
    fun slot taken dropped => List.disjoint_take_drop orderly.pages (Nat.le_refl _) taken dropped
  have oldHeld : ∀ req ∈ state.reqs, ∀ position < req.kvAllocatedLen,
      table req.reqPoolIdx position ∉ state.freePages := by
    intro req member position inside
    rw [(slots req member).1 position inside]
    exact orderly.held _ ⟨req, member, position, inside, rfl⟩
  have newTaken : ∀ req ∈ state.reqs, ∀ position, req.kvAllocatedLen ≤ position →
      position < (req.topped allocLenPerDecode).kvAllocatedLen →
      table req.reqPoolIdx position ∈ state.freePages :=
    fun req member position above inside =>
      List.mem_of_mem_take ((slots req member).2 position above inside)
  refine ⟨?_, ?_⟩
  · constructor
    · rw [List.map_map]
      exact orderly.rows
    · exact orderly.pages.sublist (List.drop_sublist _ _)
    · intro req member
      obtain ⟨before, beforeMember, rfl⟩ := List.mem_map.mp member
      obtain ⟨sum, inside, bounded⟩ := orderly.lengths before beforeMember
      exact ⟨sum, Nat.le_trans inside (Nat.le_add_right _ _), bounded⟩
    · rintro slot ⟨req, member, position, inside, rfl⟩ free
      obtain ⟨before, beforeMember, rfl⟩ := List.mem_map.mp member
      by_cases old : position < before.kvAllocatedLen
      · exact oldHeld before beforeMember position old (List.mem_of_mem_drop free)
      · exact apart _ ((slots before beforeMember).2 position (by omega) inside) free
    · intro cached member free
      exact orderly.cacheHeld cached member (List.mem_of_mem_drop free)
    · intro req member position above inside other otherMember otherPosition otherInside same
      obtain ⟨before, beforeMember, rfl⟩ := List.mem_map.mp member
      obtain ⟨otherBefore, otherBeforeMember, rfl⟩ := List.mem_map.mp otherMember
      change table before.reqPoolIdx position = table otherBefore.reqPoolIdx otherPosition at same
      by_cases old : position < before.kvAllocatedLen
      · by_cases otherOld : otherPosition < otherBefore.kvAllocatedLen
        · rw [(slots before beforeMember).1 position old,
            (slots otherBefore otherBeforeMember).1 otherPosition otherOld] at same
          obtain ⟨rfl, rfl⟩ := orderly.exclusive before beforeMember position above old otherBefore
            otherBeforeMember otherPosition otherOld same
          exact ⟨rfl, rfl⟩
        · exact (oldHeld before beforeMember position old (same ▸ newTaken otherBefore
            otherBeforeMember otherPosition (by omega) otherInside)).elim
      · by_cases otherOld : otherPosition < otherBefore.kvAllocatedLen
        · exact (oldHeld otherBefore otherBeforeMember otherPosition otherOld
            (same ▸ newTaken before beforeMember position (by omega) inside)).elim
        · subst assigned
          have ranged : ∀ req ∈ state.reqs, (req.reqPoolIdx, req.kvAllocatedLen,
              req.kvAllocatedLen + req.needed allocLenPerDecode) ∈ state.reqs.map (fun req =>
                (req.reqPoolIdx, req.kvAllocatedLen,
                  req.kvAllocatedLen + req.needed allocLenPerDecode)) :=
            fun req reqMember => List.mem_map.mpr ⟨req, reqMember, rfl⟩
          obtain ⟨rowSame, rfl⟩ := assignReqToTokenPool_inj
            (by rw [List.map_map]; exact orderly.rows)
            (orderly.pages.sublist (List.take_sublist _ _))
            (by
              rw [List.map_map, List.length_take, Nat.min_eq_left enough, ← total]
              exact Nat.le_of_eq (congrArg List.sum (List.map_congr_left (fun _ _ => by simp))))
            (ranged before beforeMember) ⟨by omega, inside⟩
            (ranged otherBefore otherBeforeMember) ⟨by omega, otherInside⟩ same
          obtain rfl := List.inj_on_of_nodup_map orderly.rows beforeMember otherBeforeMember rowSame
          exact ⟨rfl, rfl⟩
    · intro req member position above inside cached cachedMember same
      obtain ⟨before, beforeMember, rfl⟩ := List.mem_map.mp member
      change cached.1 = table before.reqPoolIdx position at same
      by_cases old : position < before.kvAllocatedLen
      · rw [(slots before beforeMember).1 position old] at same
        exact orderly.uncached before beforeMember position above old cached cachedMember same
      · exact orderly.cacheHeld cached cachedMember
          (same ▸ newTaken before beforeMember position (by omega) inside)
    · intro req member
      obtain ⟨before, beforeMember, rfl⟩ := List.mem_map.mp member
      obtain ⟨length, entries⟩ := orderly.contents before beforeMember
      refine ⟨length, ?_⟩
      intro position committed
      have inside := (orderly.lengths before beforeMember).2.1
      show state.kv (table before.reqPoolIdx position) = _
      rw [(slots before beforeMember).1 position (Nat.lt_of_lt_of_le committed inside)]
      exact entries position committed
    · exact orderly.cacheContents
  · intro req member
    obtain ⟨before, -, rfl⟩ := List.mem_map.mp member
    show before.kvCommittedLen + 2 * allocLenPerDecode ≤ before.kvAllocatedLen +
      (before.kvCommittedLen + 2 * allocLenPerDecode - before.kvAllocatedLen)
    omega

end preparation

end SpecBlock.Serving
