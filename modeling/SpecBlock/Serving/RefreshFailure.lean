import SpecBlock.Serving.Ownership
import SpecBlock.Serving.PoolCapacity

/-!
# A refresh that raises

The refresh takes back the failed blocks one request at a time, looks for a graph and
allocates the accepted chains one request at a time. The verify input the batch carries
keeps its own lists throughout, and nothing undoes what happened to the pool when a check
raises on the way.

A raise therefore leaves ownership intact only when the pool has not changed hands yet: no
block was taken back and no chain handed out. The one exception is an empty free list, where
the chains handed out before the raise can be exactly the blocks that were taken back.
-/

namespace SpecBlock.Serving

open Rows

variable {T α β : Type}

theorem PoolM.bind_of_ok {first : PoolM α} {rest : α → PoolM β} {pool between : SpecBlockKVPool}
    {value : α} (ran : first pool = .ok value between) :
    (first >>= rest) pool = rest value between := by
  change EStateM.bind first rest pool = _
  rw [EStateM.bind, ran]

theorem PoolM.bind_of_error {first : PoolM α} {rest : α → PoolM β} {pool final : SpecBlockKVPool}
    {reason : RuntimeError} (ran : first pool = .error reason final) :
    (first >>= rest) pool = .error reason final := by
  change EStateM.bind first rest pool = _
  rw [EStateM.bind, ran]

/-- Return every carried slot and forget the requests. -/
def SpecBlockVerifyInput.releaseResources (info : SpecBlockVerifyInput T) :
    PoolM (SpecBlockVerifyInput T) := do
  releaseEach (if info.kvPool then info.crossLoc else [])
  return { info with crossLoc := [], crossCount := [], crossPosition := [], tttK := [], tttV := [] }

namespace SpecBlockKVPool

/-- The pool after slots have come back. -/
def returned (slots : List Nat) (pool : SpecBlockKVPool) : SpecBlockKVPool :=
  { pool with
    free := pool.free ++ slots
    nAlloc := pool.nAlloc - slots.length }

@[simp] theorem returned_nil (pool : SpecBlockKVPool) : returned [] pool = pool := by
  simp [returned]

theorem returned_returned (first second : List Nat) (pool : SpecBlockKVPool) :
    returned second (returned first pool) = returned (first ++ second) pool := by
  have counted : pool.nAlloc - first.length - second.length =
      pool.nAlloc - (first.length + second.length : Nat) := by omega
  simp [returned, counted]

theorem release_eq {indices : List Nat} (real : 0 ∉ indices) (pool : SpecBlockKVPool) :
    release indices pool = .ok () (returned indices pool) := by
  have released : release indices pool = .ok () (if indices = [] then pool else
      { pool with
        free := pool.free ++ indices.filter (· ≠ 0)
        nAlloc := pool.nAlloc - indices.length }) := rfl
  have kept : indices.filter (· ≠ 0) = indices := by
    apply List.filter_eq_self.mpr
    intro slot member
    have : slot ≠ 0 := fun zero => real (zero ▸ member)
    simpa using this
  rw [released, kept]
  split
  next none => simp [none]
  next some => rfl

end SpecBlockKVPool

open SpecBlockKVPool

theorem releaseEach_eq {locs : List (List Nat)} (real : 0 ∉ locs.flatten)
    (pool : SpecBlockKVPool) : releaseEach locs pool = .ok () (returned locs.flatten pool) := by
  induction locs generalizing pool with
  | nil => simp [releaseEach, pure, EStateM.pure]
  | cons loc rest ih =>
    have realFirst : 0 ∉ loc := fun member => real (by simp [member])
    have realRest : 0 ∉ rest.flatten := fun member => real (List.mem_append_right loc member)
    change (release loc >>= fun _ => releaseEach rest) pool = _
    rw [PoolM.bind_of_ok (release_eq realFirst pool), ih realRest,
      returned_returned]
    rfl

section rollback

/-- The counts of the requests that accepted nothing, in batch order. -/
def rejectedCounts (accepts counts : List Nat) : List Nat :=
  ((accepts.zip counts).filter (·.1 = 0)).map Prod.snd

/-- The counts once the failed blocks are gone. -/
def rolledCounts (K : Nat) (accepts counts : List Nat) : List Nat :=
  List.zipWith (fun acceptLen count => if acceptLen = 0 then count - K else count) accepts counts

/-- The rollback takes a block from every request that accepted nothing, or raises at the
first of them that is too short, with the blocks before it gone. -/
theorem rollbackRejected_cases {K : Nat} (first : Nat) {accepts : List Nat}
    {locs : List (List Nat)} (each : accepts.length = locs.length) (real : 0 ∉ locs.flatten)
    (pool : SpecBlockKVPool) :
    (∃ rolled slots, rollbackRejected K first accepts locs (locs.map List.length) pool =
        .ok rolled (returned slots pool) ∧
      rolled.1.length = locs.length ∧
      rolled.2 = rolledCounts K accepts (locs.map List.length) ∧
      (∀ count ∈ rejectedCounts accepts (locs.map List.length), K ≤ count) ∧
      slots.length = K * (rejectedCounts accepts (locs.map List.length)).length ∧
      slots.Sublist locs.flatten) ∨
    (∃ reason slots before short after,
      rollbackRejected K first accepts locs (locs.map List.length) pool =
        .error reason (returned slots pool) ∧
      rejectedCounts accepts (locs.map List.length) = before ++ short :: after ∧
      short < K ∧ (∀ count ∈ before, K ≤ count) ∧ slots.length = K * before.length) := by
  induction accepts generalizing first locs pool with
  | nil =>
    cases locs with
    | nil => exact .inl ⟨([], []), [], by simp [rollbackRejected, pure, EStateM.pure],
        by simp [rolledCounts, rejectedCounts]⟩
    | cons loc locs => simp at each
  | cons acceptLen accepts ih =>
    cases locs with
    | nil => simp at each
    | cons loc locs =>
      have eachRest : accepts.length = locs.length := by simpa using each
      have realRest : 0 ∉ locs.flatten := fun member => real (List.mem_append_right loc member)
      have realLast : 0 ∉ loc.drop (loc.length - K) := fun member =>
        real (by simp [List.mem_of_mem_drop member])
      simp only [List.map_cons]
      unfold rollbackRejected
      by_cases accepted : acceptLen ≠ 0
      · have counts : rejectedCounts (acceptLen :: accepts) (loc.length :: locs.map List.length) =
            rejectedCounts accepts (locs.map List.length) := by
          simp [rejectedCounts, accepted]
        rw [if_pos accepted, counts]
        rcases ih (first + 1) eachRest realRest pool with
          ⟨rolled, slots, ran, long, counted, enough, total, held⟩ |
          ⟨reason, slots, before, short, after, ran, found, tooShort, enough, total⟩
        · refine .inl ⟨_, slots, PoolM.bind_of_ok ran, by simp [long], ?_, enough, total,
            held.trans (List.sublist_append_right _ _)⟩
          simp [rolledCounts, accepted, counted]
        · exact .inr ⟨reason, slots, before, short, after, PoolM.bind_of_error ran, found, tooShort,
            enough, total⟩
      · have rejected : acceptLen = 0 := by omega
        have counts : rejectedCounts (acceptLen :: accepts) (loc.length :: locs.map List.length) =
            loc.length :: rejectedCounts accepts (locs.map List.length) := by
          simp [rejectedCounts, rejected]
        rw [if_neg accepted, counts]
        by_cases small : loc.length < K
        · rw [if_pos small]
          exact .inr ⟨_, [], [], loc.length, _, by rw [returned_nil]; rfl, rfl, small, by simp,
            by simp⟩
        · rw [if_neg small]
          have block : (loc.drop (loc.length - K)).length = K := by
            rw [List.length_drop]
            omega
          have taken := release_eq realLast pool
          rw [PoolM.bind_of_ok taken]
          rcases ih (first + 1) eachRest realRest
              (returned (loc.drop (loc.length - K)) pool) with
            ⟨rolled, slots, ran, long, counted, enough, total, held⟩ |
            ⟨reason, slots, before, short, after, ran, found, tooShort, enough, total⟩
          · rw [returned_returned] at ran
            refine .inl ⟨_, _, PoolM.bind_of_ok ran, by simp [long], ?_, ?_, ?_, ?_⟩
            · simp [rolledCounts, rejected, counted]
            · intro count member
              rcases List.mem_cons.mp member with rfl | member
              · omega
              · exact enough count member
            · rw [List.length_append, block, total, List.length_cons, Nat.mul_succ, Nat.add_comm]
            · exact (List.drop_sublist _ loc).append held
          · rw [returned_returned] at ran
            refine .inr ⟨reason, _, loc.length :: before, short, after, PoolM.bind_of_error ran,
              by rw [found, List.cons_append], tooShort, ?_, ?_⟩
            · intro count member
              rcases List.mem_cons.mp member with rfl | member
              · omega
              · exact enough count member
            · rw [List.length_append, block, total, List.length_cons, Nat.mul_succ, Nat.add_comm]

end rollback

section chains

/-- The slots growth adds for a request. -/
def growth (n : Nat) : Nat := max n defaultGrowChunk

/-- The pool hands out every chain: each fits the free list or growth under the cap, outside
a capture, makes room for it. -/
def Supplied (K maxPoolSize : Nat) (inCapture : Bool) : Nat → Nat → List Nat → Prop
  | _, _, [] => True
  | free, poolSize, n :: ns =>
    if n * K ≤ free then Supplied K maxPoolSize inCapture (free - n * K) poolSize ns
    else inCapture = false ∧ poolSize + growth (n * K) ≤ maxPoolSize ∧
      Supplied K maxPoolSize inCapture (free + growth (n * K) - n * K)
        (poolSize + growth (n * K)) ns

/-- The pool may not grow for a request. -/
def GrowthRefused (n : Nat) (pool : SpecBlockKVPool) : Prop :=
  pool.inCapture = true ∨ pool.maxPoolSize < pool.poolSize + growth n

/-- The pool after slots were taken from the front of its queue. -/
def SpecBlockKVPool.popped (n : Nat) (pool : SpecBlockKVPool) : SpecBlockKVPool :=
  { pool with
    free := pool.free.drop n
    nAlloc := pool.nAlloc + n
    highWater := max pool.highWater (pool.nAlloc + n) }

theorem popFree_eq (n : Nat) (pool : SpecBlockKVPool) :
    popFree n pool = .ok ((pool.free.take n).insertionSort (· ≤ ·)) (popped n pool) := rfl

/-- An allocation takes its slots from the pool, from the grown pool, or is refused. -/
theorem alloc_outcome {n : Nat} (asked : 0 < n) (pool : SpecBlockKVPool) :
    (n ≤ pool.free.length ∧ ∃ loc, alloc n pool = .ok loc (popped n pool)) ∨
    (pool.free.length < n ∧ ¬ GrowthRefused n pool ∧
      ∃ loc, alloc n pool = .ok loc (popped n (grown (pool.poolSize + growth n) pool))) ∨
    (pool.free.length < n ∧ GrowthRefused n pool ∧ ∃ reason, alloc n pool = .error reason pool) := by
  rcases alloc_cases n asked pool with ⟨supplied, supply, taken⟩ | ⟨short, refused, raised⟩
  · cases supply with
    | enough fits => exact .inl ⟨fits, _, taken.trans (popFree_eq n pool)⟩
    | growth short uncaptured within =>
      refine .inr (.inl ⟨short, ?_, _, taken.trans (popFree_eq n _)⟩)
      rintro (captured | exceeds)
      · simp [uncaptured] at captured
      · exact absurd within (Nat.not_le.mpr exceeds)
  · exact .inr (.inr ⟨short, refused, raised⟩)

/-- The pool when a chain is refused: it lacks the slots of the chains before, has what growth
added, and is too short for this one. -/
structure ChainRefused (K : Nat) (pool final : SpecBlockKVPool) (before : List Nat) (n : Nat)
    (added : List Nat) : Prop where
  counted : final.nAlloc = pool.nAlloc + (before.sum * K : Nat)
  left : final.free = (pool.free ++ added).drop (before.sum * K)
  within : before.sum * K ≤ (pool.free ++ added).length
  short : final.free.length < n * K
  refused : added = [] → GrowthRefused (n * K) pool

/-- A chain handed out earlier is one more before the refusal. -/
theorem ChainRefused.cons {K first n : Nat} {pool between final : SpecBlockKVPool}
    {before extra added : List Nat} (later : ChainRefused K between final before n added)
    (enough : first * K ≤ (pool.free ++ extra).length)
    (left : between.free = (pool.free ++ extra).drop (first * K))
    (counted : between.nAlloc = pool.nAlloc + (first * K : Nat))
    (same : extra = [] → GrowthRefused (n * K) between → GrowthRefused (n * K) pool) :
    ChainRefused K pool final (first :: before) n (extra ++ added) := by
  have total : (first :: before).sum * K = first * K + before.sum * K := by
    rw [List.sum_cons, Nat.add_mul]
  have front : between.free ++ added = (pool.free ++ (extra ++ added)).drop (first * K) := by
    rw [left, ← List.append_assoc, List.drop_append_of_le_length enough]
  constructor
  · rw [later.counted, counted, total]
    omega
  · rw [later.left, front, List.drop_drop, total]
  · have within := later.within
    rw [front, List.length_drop] at within
    rw [List.length_append] at enough
    rw [total]
    simp only [List.length_append] at enough within ⊢
    omega
  · exact later.short
  · intro none
    obtain ⟨noExtra, noAdded⟩ := List.append_eq_nil_iff.mp none
    exact same noExtra (later.refused noAdded)

theorem allocEach_cases {K : Nat} (block : 0 < K) {ns : List Nat} (asked : ∀ n ∈ ns, 0 < n)
    (pool : SpecBlockKVPool) :
    (Supplied K pool.maxPoolSize pool.inCapture pool.free.length pool.poolSize ns ∧
      ∃ locs final, allocEach K ns pool = .ok locs final ∧ locs.length = ns.length) ∨
    (¬ Supplied K pool.maxPoolSize pool.inCapture pool.free.length pool.poolSize ns ∧
      ∃ reason final before n after added, allocEach K ns pool = .error reason final ∧
        ns = before ++ n :: after ∧ ChainRefused K pool final before n added) := by
  induction ns generalizing pool with
  | nil => exact .inl ⟨trivial, [], pool, rfl, rfl⟩
  | cons n ns ih =>
    have askedRest : ∀ other ∈ ns, 0 < other := fun other member =>
      asked other (List.mem_cons_of_mem n member)
    have positive : 0 < n * K := Nat.mul_pos (asked n List.mem_cons_self) block
    change (_ ∧ ∃ locs final, (alloc (n * K) >>= fun loc => allocEach K ns >>= fun locs =>
      pure (loc :: locs)) pool = .ok locs final ∧ _) ∨ (_ ∧ ∃ reason final before m after added,
        (alloc (n * K) >>= fun loc => allocEach K ns >>= fun locs => pure (loc :: locs)) pool =
          .error reason final ∧ _)
    simp only [Supplied]
    rcases alloc_outcome positive pool with
      ⟨fits, loc, taken⟩ | ⟨short, allowed, loc, taken⟩ | ⟨short, refused, reason, raised⟩
    · rw [if_pos fits, PoolM.bind_of_ok taken]
      have room : (popped (n * K) pool).free.length = pool.free.length - n * K := List.length_drop
      rcases ih askedRest (popped (n * K) pool) with
        ⟨supplied, locs, final, ran, long⟩ |
        ⟨unsupplied, reason, final, before, m, after, added, ran, found, later⟩
      · rw [room] at supplied
        exact .inl ⟨supplied, _, final, PoolM.bind_of_ok ran, by simp [long]⟩
      · rw [room] at unsupplied
        refine .inr ⟨unsupplied, reason, final, n :: before, m, after, [] ++ added,
          PoolM.bind_of_error ran, by rw [found, List.cons_append], ?_⟩
        exact later.cons (by simpa using fits) (by rw [List.append_nil]; rfl) rfl
          (fun _ refused => refused)
    · have wide : n * K ≤ growth (n * K) := Nat.le_max_left _ _
      have larger : pool.poolSize + growth (n * K) - pool.poolSize = growth (n * K) := by omega
      obtain ⟨uncaptured, below⟩ := not_or.mp allowed
      have room : (popped (n * K) (grown (pool.poolSize + growth (n * K)) pool)).free.length =
          pool.free.length + growth (n * K) - n * K := by
        simp [popped, grown, larger]
      rw [if_neg (by omega), PoolM.bind_of_ok taken]
      rcases ih askedRest
          (popped (n * K) (grown (pool.poolSize + growth (n * K)) pool)) with
        ⟨supplied, locs, final, ran, long⟩ |
        ⟨unsupplied, reason, final, before, m, after, added, ran, found, later⟩
      · rw [room] at supplied
        exact .inl ⟨⟨by simpa using uncaptured, by omega, supplied⟩, _, final,
          PoolM.bind_of_ok ran, by simp [long]⟩
      · rw [room] at unsupplied
        refine .inr ⟨fun supplied => unsupplied supplied.2.2, reason, final, n :: before, m, after,
          List.range' pool.poolSize (growth (n * K)) ++ added, PoolM.bind_of_error ran,
          by rw [found, List.cons_append], ?_⟩
        refine later.cons ?_ (by simp [popped, grown, larger]) rfl ?_
        · rw [List.length_append, List.length_range']
          omega
        · intro none
          have size := congrArg List.length none
          rw [List.length_range'] at size
          simp only [List.length_nil] at size
          omega
    · rw [if_neg (by omega), PoolM.bind_of_error raised]
      refine .inr ⟨?_, reason, pool, [], n, ns, [], rfl, rfl, ?_⟩
      · rintro ⟨uncaptured, within, -⟩
        rcases refused with captured | exceeds
        · simp [uncaptured] at captured
        · omega
      · exact ⟨by simp, by simp, by simp, short, fun _ => refused⟩

/-- Chains that fit the free list are handed out before one that is refused. -/
theorem allocEach_refused {K : Nat} (block : 0 < K) {before : List Nat} {n : Nat}
    (after : List Nat) (asked : ∀ m ∈ before, 0 < m) (pool : SpecBlockKVPool)
    (fits : before.sum * K ≤ pool.free.length)
    (short : pool.free.length - before.sum * K < n * K) (refused : GrowthRefused (n * K) pool) :
    ∃ reason final, allocEach K (before ++ n :: after) pool = .error reason final ∧
      final.free = pool.free.drop (before.sum * K) ∧
      final.nAlloc = pool.nAlloc + (before.sum * K : Nat) := by
  induction before generalizing pool with
  | nil =>
    simp only [List.sum_nil, Nat.zero_mul, Nat.sub_zero] at short
    rcases alloc_outcome (by omega : 0 < n * K) pool with
      ⟨enough, -⟩ | ⟨-, allowed, -⟩ | ⟨-, -, reason, raised⟩
    · omega
    · exact (allowed refused).elim
    · exact ⟨reason, pool, PoolM.bind_of_error raised, by simp, by simp⟩
  | cons first before ih =>
    have positive : 0 < first * K := Nat.mul_pos (asked first List.mem_cons_self) block
    have total : (first :: before).sum * K = first * K + before.sum * K := by
      rw [List.sum_cons, Nat.add_mul]
    rw [total] at fits short ⊢
    rcases alloc_outcome positive pool with ⟨enough, loc, taken⟩ | ⟨less, -⟩ | ⟨less, -⟩
    · have room : (popped (first * K) pool).free.length = pool.free.length - first * K :=
        List.length_drop
      obtain ⟨reason, final, ran, left, counted⟩ := ih
        (fun other member => asked other (List.mem_cons_of_mem first member))
        (popped (first * K) pool) (by omega) (by omega) refused
      refine ⟨reason, final, ?_, ?_, ?_⟩
      · change (alloc (first * K) >>= fun loc => allocEach K (before ++ n :: after) >>= fun locs =>
          pure (loc :: locs)) pool = _
        rw [PoolM.bind_of_ok taken, PoolM.bind_of_error ran]
      · rw [left]
        exact List.drop_drop
      · rw [counted]
        simp only [popped]
        omega
    · omega
    · omega

end chains

section refresh

/-- What the worker carries into a refresh: one entry per request in every list, exact counts,
and cross slots that nobody else owns. -/
structure Refreshable (info : SpecBlockVerifyInput T) (verifiedId : List Nat)
    (verifiedHidden : List T) (accepts : List Nat) (pool : SpecBlockKVPool) : Prop where
  attached : info.kvPool = true
  counted : info.crossCount = info.crossLoc.map List.length
  each : accepts.length = info.crossLoc.length
  positions : info.crossPosition.length = accepts.length
  tokens : accepts ≠ [] → verifiedId ≠ []
  hidden : accepts ≠ [] → verifiedHidden ≠ []
  real : 0 ∉ info.crossLoc.flatten
  apart : (pool.free ++ info.crossLoc.flatten).Nodup

/-- Ownership after a raise is as before: the free list and the count are the same, and
returning what the batch carries frees each slot once. -/
structure OwnershipIntact (info : SpecBlockVerifyInput T) (pool final : SpecBlockKVPool) :
    Prop where
  free : final.free = pool.free
  nAlloc : final.nAlloc = pool.nAlloc
  once : ∃ forgotten released, info.releaseResources final = .ok forgotten released ∧
    released.free = pool.free ++ info.crossLoc.flatten ∧ released.free.Nodup

/-- No raise of the refresh disturbs ownership. -/
def FailureIntact (worker : SpecBlockWorker) (info : SpecBlockVerifyInput T)
    (verifiedId : List Nat) (verifiedHidden : List T) (accepts : List Nat)
    (replay : Nat → RefreshReplay T) (seqLens : List Nat) (pool : SpecBlockKVPool) : Prop :=
  ∀ reason final, refreshDraftState worker info verifiedId verifiedHidden accepts replay seqLens
    pool = .error reason final → OwnershipIntact info pool final

/-- No chain is refused, or the chains before the refused one take as many slots as were
rolled back, and nothing was rolled back or no slot was free before. -/
def ChainsKeep (K : Nat) (rejected ns : List Nat) (pool : SpecBlockKVPool) : Prop :=
  Supplied K pool.maxPoolSize pool.inCapture (pool.free.length + K * rejected.length)
    pool.poolSize ns ∨
  ∃ before n after, ns = before ++ n :: after ∧ before.sum = rejected.length ∧
    (rejected = [] ∨ pool.free = []) ∧ pool.free.length < n * K ∧ GrowthRefused (n * K) pool

/-- A request too short for the rollback is the first one rolled back, a batch no graph fits
rolls nothing back, and a refused chain finds the pool as it was. -/
structure RefreshKeeps (worker : SpecBlockWorker) (accepts counts : List Nat)
    (pool : SpecBlockKVPool) : Prop where
  rollback : (∃ count ∈ rejectedCounts accepts counts, count < worker.K) →
    ∃ first ∈ (rejectedCounts accepts counts).head?, first < worker.K
  graph : (∀ count ∈ rejectedCounts accepts counts, worker.K ≤ count) →
    requireRefreshBuckets worker (rolledCounts worker.K accepts counts) (accepts.map (· + 1)) ≠
      .ok () → rejectedCounts accepts counts = []
  chains : (∀ count ∈ rejectedCounts accepts counts, worker.K ≤ count) →
    requireRefreshBuckets worker (rolledCounts worker.K accepts counts) (accepts.map (· + 1)) =
      .ok () →
    ChainsKeep worker.K (rejectedCounts accepts counts) (accepts.map (· + 1)) pool

theorem Refreshable.intact {info : SpecBlockVerifyInput T} {verifiedId : List Nat}
    {verifiedHidden : List T} {accepts : List Nat} {pool final : SpecBlockKVPool}
    (carried : Refreshable info verifiedId verifiedHidden accepts pool)
    (sameFree : final.free = pool.free) (sameCount : final.nAlloc = pool.nAlloc) :
    OwnershipIntact info pool final := by
  have released := releaseEach_eq carried.real final
  refine ⟨sameFree, sameCount,
    { info with crossLoc := [], crossCount := [], crossPosition := [], tttK := [], tttV := [] },
    returned info.crossLoc.flatten final, ?_, ?_, ?_⟩
  · unfold SpecBlockVerifyInput.releaseResources
    rw [carried.attached, if_pos rfl, PoolM.bind_of_ok released]
    rfl
  · simp [returned, sameFree]
  · simpa [returned, sameFree] using carried.apart

/-- Slots put at the end of a list and as many taken off its front leave the list as it was
only when there were none of either. -/
theorem rotated_eq {front back : List Nat} (distinct : (front ++ back).Nodup)
    (same : (front ++ back).drop back.length = front) : back = [] ∨ front = [] := by
  cases front with
  | nil => exact .inr rfl
  | cons slot front =>
    refine .inl (List.eq_nil_of_length_eq_zero ?_)
    have first : ((slot :: front ++ back).drop back.length)[0]? = some slot := by rw [same]; rfl
    rw [List.getElem?_drop] at first
    have start : (slot :: front ++ back)[0]? = some slot := rfl
    obtain ⟨inside, atBack⟩ := List.getElem?_eq_some_iff.mp first
    obtain ⟨begins, atStart⟩ := List.getElem?_eq_some_iff.mp start
    exact (List.Nodup.getElem_inj_iff distinct).mp (atBack.trans atStart.symm)

/-- The tail of a chain is read from a list that is not empty. -/
theorem chainTail_total {flat : List α} (counts : List Nat) (request : Nat) (some : flat ≠ []) :
    ∃ entry, chainTail flat counts request = .ok entry := by
  have positive := List.length_pos_iff.mpr some
  refine ⟨flat[min ((counts.take (request + 1)).sum - 1) (flat.length - 1)], ?_⟩
  unfold chainTail
  rw [entryAt_ok, List.getElem?_eq_getElem]

/-- Once the chains have their slots the new draft state is assembled without a raise. -/
theorem Refreshable.rows {info : SpecBlockVerifyInput T} {verifiedId : List Nat}
    {verifiedHidden : List T} {accepts : List Nat} {pool : SpecBlockKVPool}
    (carried : Refreshable info verifiedId verifiedHidden accepts pool) (K : Nat)
    (replay : Nat → RefreshReplay T) (newIndices : List (List Nat)) {locs : List (List Nat)}
    {counts : List Nat} (someLoc : locs.length = accepts.length) (someNew : newIndices.length = accepts.length)
    (someCount : counts.length = accepts.length) :
    ∃ rows, refreshRows K verifiedId verifiedHidden accepts info.crossPosition locs newIndices
      counts replay = .ok rows := by
  have read {β : Type} {entries : List β} {request : Nat} (long : entries.length = accepts.length)
      (inside : request < accepts.length) : ∃ entry, entryAt entries request = .ok entry :=
    ⟨entries[request], entryAt_ok.mpr (List.getElem?_eq_getElem (long ▸ inside))⟩
  unfold refreshRows
  refine (mapM_forall₂ (List.range accepts.length) _ (fun _ _ => True) ?_).imp
    (fun rows assembled => assembled.1)
  intro request member
  have inside := List.mem_range.mp member
  have some : accepts ≠ [] := List.ne_nil_of_length_pos (by omega)
  obtain ⟨acceptLen, atAccept⟩ := read rfl inside
  obtain ⟨position, atPosition⟩ := read carried.positions inside
  obtain ⟨hidden, tailHidden⟩ := chainTail_total (accepts.map (· + 1)) request (carried.hidden some)
  obtain ⟨token, tailToken⟩ := chainTail_total (accepts.map (· + 1)) request (carried.tokens some)
  obtain ⟨loc, atLoc⟩ := read someLoc inside
  obtain ⟨new, atNew⟩ := read someNew inside
  obtain ⟨count, atCount⟩ := read someCount inside
  simp only [atAccept, atPosition, tailHidden, tailToken, atLoc, atNew, atCount, bind, Except.bind,
    pure, Except.pure]
  exact ⟨_, rfl, trivial⟩

theorem refreshDraftState_rolled {worker : SpecBlockWorker} {info : SpecBlockVerifyInput T}
    (verifiedId : List Nat) (verifiedHidden : List T) {accepts : List Nat}
    (replay : Nat → RefreshReplay T) (seqLens : List Nat) {pool between : SpecBlockKVPool}
    {rolled : List (List Nat) × List Nat}
    (rollback : rollbackRejected worker.K 0 accepts info.crossLoc info.crossCount pool =
      .ok rolled between) :
    refreshDraftState worker info verifiedId verifiedHidden accepts replay seqLens pool =
      (PoolM.ofExcept (requireRefreshBuckets worker rolled.2 (accepts.map (· + 1))) >>= fun _ =>
        allocEach worker.K (accepts.map (· + 1)) >>= fun newIndices =>
        PoolM.ofExcept (refreshRows worker.K verifiedId verifiedHidden accepts info.crossPosition
          rolled.1 newIndices rolled.2 replay) >>= fun rows =>
        pure (SpecBlockDraftInput.assemble rows seqLens)) between :=
  PoolM.bind_of_ok rollback

section raised

variable {worker : SpecBlockWorker} {info : SpecBlockVerifyInput T} {verifiedId : List Nat}
  {verifiedHidden : List T} {accepts : List Nat} {replay : Nat → RefreshReplay T}
  {seqLens : List Nat} {pool final : SpecBlockKVPool}

theorem failureIntact_of_error {reason : RuntimeError}
    (raised : refreshDraftState worker info verifiedId verifiedHidden accepts replay seqLens pool =
      .error reason final) :
    FailureIntact worker info verifiedId verifiedHidden accepts replay seqLens pool ↔
      OwnershipIntact info pool final := by
  constructor
  · intro intact
    exact intact reason final raised
  · intro intact other last ran
    rw [raised] at ran
    obtain ⟨-, rfl⟩ := EStateM.Result.error.inj ran
    exact intact

/-- Blocks that were taken back and nothing handed out leave ownership intact only when there
were none. -/
theorem Refreshable.intact_returned
    (carried : Refreshable info verifiedId verifiedHidden accepts pool) (slots : List Nat) :
    OwnershipIntact info pool (returned slots pool) ↔ slots = [] := by
  constructor
  · intro intact
    have free : pool.free ++ slots = pool.free := intact.free
    exact List.append_right_eq_self.mp free
  · rintro rfl
    exact carried.intact (by rw [returned_nil]) (by rw [returned_nil])

/-- A refused chain leaves ownership intact when the chains before it took what the rollback
had returned, and either was nothing or no slot was free before. -/
theorem Refreshable.intact_refused
    (carried : Refreshable info verifiedId verifiedHidden accepts pool) {slots : List Nat}
    (held : slots.Sublist info.crossLoc.flatten) {before : List Nat} {n : Nat} {added : List Nat}
    (refused : ChainRefused worker.K (returned slots pool) final before n added)
    (intact : OwnershipIntact info pool final) :
    slots.length = before.sum * worker.K ∧ (slots = [] ∨ pool.free = []) ∧
      pool.free.length < n * worker.K ∧ GrowthRefused (n * worker.K) pool := by
  have counted : pool.nAlloc - slots.length + (before.sum * worker.K : Nat) = pool.nAlloc :=
    refused.counted.symm.trans intact.nAlloc
  have taken : slots.length = before.sum * worker.K := by omega
  have left : (pool.free ++ slots ++ added).drop (before.sum * worker.K) = pool.free :=
    refused.left.symm.trans intact.free
  have none : added = [] := by
    have size := congrArg List.length left
    simp only [List.length_drop, List.length_append] at size
    exact List.eq_nil_of_length_eq_zero (by omega)
  have short := refused.short
  rw [none, List.append_nil, ← taken] at left
  rw [intact.free] at short
  have distinct : (pool.free ++ slots).Nodup :=
    List.Nodup.sublist (held.append_left pool.free) carried.apart
  exact ⟨taken, rotated_eq distinct left, short, refused.refused none⟩

/-- The allocation of the chains leaves ownership intact as the lengths tell. -/
theorem Refreshable.chains_intact_iff
    (carried : Refreshable info verifiedId verifiedHidden accepts pool) {slots rejected : List Nat}
    {rolled : List (List Nat) × List Nat} (held : slots.Sublist info.crossLoc.flatten)
    (total : slots.length = worker.K * rejected.length) (someLoc : rolled.1.length = accepts.length)
    (someCount : rolled.2.length = accepts.length)
    (stages : refreshDraftState worker info verifiedId verifiedHidden accepts replay seqLens pool =
      (allocEach worker.K (accepts.map (· + 1)) >>= fun newIndices =>
        PoolM.ofExcept (refreshRows worker.K verifiedId verifiedHidden accepts info.crossPosition
          rolled.1 newIndices rolled.2 replay) >>= fun rows =>
        pure (SpecBlockDraftInput.assemble rows seqLens)) (returned slots pool)) :
    FailureIntact worker info verifiedId verifiedHidden accepts replay seqLens pool ↔
      ChainsKeep worker.K rejected (accepts.map (· + 1)) pool := by
  have block := worker.K_positive
  have asked : ∀ n ∈ accepts.map (· + 1), 0 < n := by simp
  have room : (returned slots pool).free.length =
      pool.free.length + worker.K * rejected.length := by
    simp [returned, total]
  rcases allocEach_cases block asked (returned slots pool) with
    ⟨supplied, newIndices, final, ran, long⟩ |
    ⟨unsupplied, reason, final, before, n, after, added, ran, found, refused⟩
  · -- All chains have their slots, and nothing after that raises.
    rw [room] at supplied
    refine iff_of_true (fun reason last raised => ?_) (.inl supplied)
    obtain ⟨rows, assembled⟩ := carried.rows worker.K replay newIndices someLoc
      (long.trans (List.length_map _)) someCount
    rw [stages, PoolM.bind_of_ok ran, assembled] at raised
    cases raised
  · rw [room] at unsupplied
    have raised := stages.trans (PoolM.bind_of_error ran)
    rw [failureIntact_of_error raised]
    constructor
    · intro intact
      obtain ⟨taken, none, short, stuck⟩ := carried.intact_refused held refused intact
      have same : before.sum = rejected.length := by
        rw [total, Nat.mul_comm] at taken
        exact (Nat.eq_of_mul_eq_mul_right block taken).symm
      refine .inr ⟨before, n, after, found, same, none.imp_left (fun empty => ?_), short, stuck⟩
      rw [empty, List.length_nil] at total
      exact List.length_eq_zero_iff.mp ((Nat.mul_eq_zero.mp total.symm).resolve_left (by omega))
    · rintro (supplied | ⟨before, n, after, cut, same, none, short, stuck⟩)
      · exact (unsupplied supplied).elim
      · have taken : before.sum * worker.K = slots.length := by rw [same, total, Nat.mul_comm]
        have askedBefore : ∀ m ∈ before, 0 < m := fun m member => asked m (by rw [cut]; simp [member])
        obtain ⟨other, last, again, left, counted⟩ := allocEach_refused block after askedBefore
          (returned slots pool) (by simp [returned, taken])
          (by simpa [returned, taken] using short) stuck
        rw [← cut, ran] at again
        obtain ⟨-, rfl⟩ := EStateM.Result.error.inj again
        refine carried.intact ?_ ?_
        · rw [left, taken]
          rcases none with empty | empty
          · rw [empty, List.length_nil, Nat.mul_zero] at total
            simp [List.eq_nil_of_length_eq_zero total]
          · simp [returned, empty]
        · rw [counted, taken]
          simp [returned]

end raised

/-- Which raises of the refresh leave ownership intact. -/
theorem refresh_failure_intact_iff (worker : SpecBlockWorker) (info : SpecBlockVerifyInput T)
    (verifiedId : List Nat) (verifiedHidden : List T) (accepts : List Nat)
    (replay : Nat → RefreshReplay T) (seqLens : List Nat) (pool : SpecBlockKVPool)
    (carried : Refreshable info verifiedId verifiedHidden accepts pool) :
    FailureIntact worker info verifiedId verifiedHidden accepts replay seqLens pool ↔
      RefreshKeeps worker accepts info.crossCount pool := by
  have block := worker.K_positive
  rcases rollbackRejected_cases (K := worker.K) 0 carried.each carried.real pool with
    ⟨rolled, slots, ran, long, counted, enough, total, held⟩ |
    ⟨reason, slots, before, short, after, ran, found, tooShort, enough, total⟩
  all_goals rw [← carried.counted] at *
  · have rejectedNone : slots = [] ↔ rejectedCounts accepts info.crossCount = [] := by
      rw [← List.length_eq_zero_iff, total, Nat.mul_eq_zero, List.length_eq_zero_iff]
      exact or_iff_right (by omega)
    have noShort : ¬ ∃ count ∈ rejectedCounts accepts info.crossCount, count < worker.K := by
      rintro ⟨count, member, small⟩
      exact absurd (enough count member) (by omega)
    have stages := refreshDraftState_rolled verifiedId verifiedHidden replay seqLens ran
    rw [counted] at stages
    cases fits : requireRefreshBuckets worker (rolledCounts worker.K accepts info.crossCount)
        (accepts.map (· + 1)) with
    | error reason =>
      rw [fits] at stages
      have missing : (PoolM.ofExcept (.error reason) : PoolM Unit) (returned slots pool) =
          .error reason (returned slots pool) := rfl
      have raised := stages.trans (PoolM.bind_of_error missing)
      rw [failureIntact_of_error raised, carried.intact_returned, rejectedNone]
      constructor
      · intro none
        exact ⟨fun short => (noShort short).elim, fun _ _ => none,
          fun _ found => absurd (fits.symm.trans found) (by simp)⟩
      · intro keeps
        exact keeps.graph enough (by rw [fits]; simp)
    | ok done =>
      rw [fits] at stages
      have found : (PoolM.ofExcept (.ok done) : PoolM Unit) (returned slots pool) =
          .ok done (returned slots pool) := rfl
      have stages := stages.trans (PoolM.bind_of_ok found)
      have keeps_iff : RefreshKeeps worker accepts info.crossCount pool ↔ _ :=
        ⟨fun keeps => keeps.chains enough fits, fun chains => ⟨fun short => (noShort short).elim,
          fun _ missing => absurd fits missing, fun _ _ => chains⟩⟩
      rw [keeps_iff]
      have someCount : (rolledCounts worker.K accepts info.crossCount).length = accepts.length := by
        simp [rolledCounts, carried.counted, carried.each]
      exact carried.chains_intact_iff held total (long.trans carried.each.symm)
        (counted ▸ someCount) (counted ▸ stages)
  · have raised : refreshDraftState worker info verifiedId verifiedHidden accepts replay seqLens
        pool = .error reason (returned slots pool) := PoolM.bind_of_error ran
    rw [failureIntact_of_error raised, carried.intact_returned]
    constructor
    · rintro rfl
      have first : before = [] := by
        have size : worker.K * before.length = 0 := total.symm
        exact List.eq_nil_of_length_eq_zero ((Nat.mul_eq_zero.mp size).resolve_left (by omega))
      have shortIn : short ∈ rejectedCounts accepts info.crossCount := by rw [found]; simp
      refine ⟨fun _ => ⟨short, by rw [found, first]; rfl, tooShort⟩, fun all => ?_, fun all => ?_⟩
      · exact absurd (all short shortIn) (by omega)
      · exact absurd (all short shortIn) (by omega)
    · intro keeps
      obtain ⟨first, atHead, small⟩ := keeps.rollback ⟨short, by rw [found]; simp, tooShort⟩
      cases before with
      | nil => exact List.eq_nil_of_length_eq_zero (by simpa using total)
      | cons other before =>
        rw [found] at atHead
        obtain rfl : other = first := by simpa using atHead
        exact absurd (enough other List.mem_cons_self) (by omega)

/-- Two requests with four slots each on a pool at its cap with three free slots. -/
def cappedPool : SpecBlockKVPool := ⟨12, 12, [9, 10, 11], 8, 8, false, 0⟩

/-- What a batch of two requests carries into the refresh. -/
def cappedInfo : SpecBlockVerifyInput Nat where
  positions := [[3], [4]]
  hiddenStates := some [1, 1]
  verifiedId := some [5, 6]
  crossLoc := [[1, 2, 3, 4], [5, 6, 7, 8]]
  crossCount := [4, 4]
  crossPosition := [2, 3]
  tttK := [[], []]
  tttV := [[], []]
  kvPool := true

theorem cappedInfo_refreshable (verifiedId accepts : List Nat) (each : accepts.length = 2)
    (tokens : verifiedId ≠ []) :
    Refreshable cappedInfo verifiedId verifiedId accepts cappedPool where
  attached := rfl
  counted := rfl
  each := each
  positions := each.symm
  tokens := fun _ => tokens
  hidden := fun _ => tokens
  real := by decide
  apart := by decide

/-- Nobody is rolled back and the first chain is refused. -/
theorem refresh_failure_intact_iff_first :
    Refreshable cappedInfo [7, 7, 7, 7] [7, 7, 7, 7] [1, 1] cappedPool ∧
      (FailureIntact smallWorker cappedInfo [7, 7, 7, 7] [7, 7, 7, 7] [1, 1] zeroReplay [3, 4]
          cappedPool ↔
        RefreshKeeps smallWorker [1, 1] [4, 4] cappedPool) :=
  have carried := cappedInfo_refreshable [7, 7, 7, 7] [1, 1] rfl (by simp)
  ⟨carried, refresh_failure_intact_iff smallWorker cappedInfo [7, 7, 7, 7] [7, 7, 7, 7] [1, 1]
    zeroReplay [3, 4] cappedPool carried⟩

/-- One request accepted nothing and the chain of the other is refused: the first request's
block is free, the batch still carries it, and releasing the batch frees it again. -/
theorem refresh_failure_frees_twice :
    ∃ reason final, refreshDraftState smallWorker cappedInfo [7, 7, 7, 7] [7, 7, 7, 7] [0, 2]
        zeroReplay [2, 6] cappedPool = .error reason final ∧
      final.free = [11, 3, 4] ∧ ¬ OwnershipIntact cappedInfo cappedPool final ∧
      ∃ forgotten released, cappedInfo.releaseResources final = .ok forgotten released ∧
        released.free = [11, 3, 4, 1, 2, 3, 4, 5, 6, 7, 8] ∧ ¬ released.free.Nodup := by
  refine ⟨_, _, rfl, rfl, ?_, _, _, rfl, rfl, by decide⟩
  intro intact
  exact absurd intact.free (by decide)

end refresh

end SpecBlock.Serving
