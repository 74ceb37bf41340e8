import SpecBlock.Foundation.Runs
import SpecBlock.Serving.KvPool

/-!
# Capacity of the pool

A history of the pool allocates, returns, grows, captures, writes and resets. Callers
return only slots they hold, possibly padded with the sentinel. Such padding makes the
pool count fewer slots than are out, so the history keeps its own list of held slots.

Growth adds at least a chunk and is refused when that passes the cap, so a request can be
refused although the cap leaves room for it. Every refusal leaves the pool as it was.
-/

namespace SpecBlock.Serving

/-- The pool with its key and value buffers: for every layer, one entry for each slot. -/
structure BufferedPool (E : Type) where
  pool : SpecBlockKVPool
  kBuffer : List (List E)
  vBuffer : List (List E)
  deriving DecidableEq, Repr

namespace BufferedPool

variable {E α : Type}

/-- Larger buffers of zeros with the old entries copied in front. -/
def widened [Zero E] (buffer : List (List E)) (added : Nat) : List (List E) :=
  buffer.map (fun layer => layer ++ List.replicate added 0)

/-- The pool after an operation of its bookkeeping; growth replaces the buffers. -/
def after [Zero E] (state : BufferedPool E) (final : SpecBlockKVPool) : BufferedPool E :=
  ⟨final, widened state.kBuffer (final.poolSize - state.pool.poolSize),
    widened state.vBuffer (final.poolSize - state.pool.poolSize)⟩

/-- An operation of the bookkeeping together with what it does to the buffers. -/
def withBuffers [Zero E] (operation : PoolM α) (state : BufferedPool E) :
    EStateM.Result RuntimeError (BufferedPool E) α :=
  match operation state.pool with
  | .ok result final => .ok result (state.after final)
  | .error reason final => .error reason (state.after final)

/-- Allocate slots. -/
def alloc [Zero E] (n : Nat) (state : BufferedPool E) :
    EStateM.Result RuntimeError (BufferedPool E) (List Nat) :=
  withBuffers (SpecBlockKVPool.alloc n) state

/-- An operation succeeds on the pool with its buffers when it does on the bookkeeping. -/
theorem withBuffers_ok [Zero E] {operation : PoolM α} {state result : BufferedPool E}
    {value : α} :
    withBuffers operation state = .ok value result ↔
      ∃ final, operation state.pool = .ok value final ∧ state.after final = result := by
  unfold withBuffers
  cases operation state.pool with
  | ok other final => simp
  | error reason final => simp

/-- An operation fails on the pool with its buffers when it does on the bookkeeping. -/
theorem withBuffers_error [Zero E] {operation : PoolM α} {state result : BufferedPool E}
    {reason : RuntimeError} :
    withBuffers operation state = .error reason result ↔
      ∃ final, operation state.pool = .error reason final ∧ state.after final = result := by
  unfold withBuffers
  cases operation state.pool with
  | ok other final => simp
  | error other final => simp

/-- Bookkeeping of the same size comes with the same buffers. -/
theorem after_same [Zero E] (state : BufferedPool E) (final : SpecBlockKVPool)
    (same : final.poolSize = state.pool.poolSize) :
    state.after final = { state with pool := final } := by
  have unchanged (buffer : List (List E)) : widened buffer 0 = buffer := by
    unfold widened
    simp
  simp [after, same, unchanged]

end BufferedPool

namespace SpecBlockKVPool

/-- The bookkeeping after growth to a larger size. -/
def grown (newSize : Nat) (pool : SpecBlockKVPool) : SpecBlockKVPool :=
  { pool with
    free := pool.free ++ List.range' pool.poolSize (newSize - pool.poolSize)
    poolSize := newSize
    poolVersion := pool.poolVersion + 1 }

/-- Free all slots and keep the buffers. -/
def reset (pool : SpecBlockKVPool) : SpecBlockKVPool :=
  { pool with free := List.range' 1 (pool.poolSize - 1), nAlloc := 0 }

theorem grow_eq {newSize : Nat} {pool : SpecBlockKVPool} (larger : pool.poolSize < newSize)
    (within : newSize ≤ pool.maxPoolSize) :
    grow newSize pool = .ok () (grown newSize pool) := by
  have notOver : ¬ pool.maxPoolSize < newSize := by omega
  have notSmaller : ¬ newSize ≤ pool.poolSize := by omega
  change (if pool.maxPoolSize < newSize then throw _ else
    if newSize ≤ pool.poolSize then _ else _ : PoolM Unit) pool = _
  rw [if_neg notOver, if_neg notSmaller]
  rfl

/-- Growth beyond the cap is refused before anything changes. -/
theorem grow_refused {newSize : Nat} {pool : SpecBlockKVPool}
    (exceeds : pool.maxPoolSize < newSize) : ∃ reason, grow newSize pool = .error reason pool := by
  have decided : grow newSize pool = (if pool.maxPoolSize < newSize then throw _ else
    if newSize ≤ pool.poolSize then _ else _ : PoolM Unit) pool := rfl
  rw [if_pos exceeds] at decided
  exact ⟨_, decided⟩

/-- Where an allocation that succeeds takes its slots from. -/
inductive Supply (n : Nat) (pool : SpecBlockKVPool) : SpecBlockKVPool → Prop
  | enough (fits : n ≤ pool.free.length) : Supply n pool pool
  | growth (short : pool.free.length < n) (uncaptured : pool.inCapture = false)
      (within : pool.poolSize + max n defaultGrowChunk ≤ pool.maxPoolSize) :
      Supply n pool (grown (pool.poolSize + max n defaultGrowChunk) pool)

theorem Supply.length {n : Nat} {pool supplied : SpecBlockKVPool}
    (supply : Supply n pool supplied) : n ≤ supplied.free.length := by
  cases supply with
  | enough fits => exact fits
  | growth short uncaptured within =>
    have chunk : n ≤ max n defaultGrowChunk := Nat.le_max_left _ _
    simp only [grown, List.length_append, List.length_range']
    omega

/-- An allocation takes its slots from a supply or is refused with the pool as it was. -/
theorem alloc_cases (n : Nat) (asked : 0 < n) (pool : SpecBlockKVPool) :
    (∃ supplied, Supply n pool supplied ∧ alloc n pool = popFree n supplied) ∨
    (pool.free.length < n ∧
      (pool.inCapture = true ∨ pool.maxPoolSize < pool.poolSize + max n defaultGrowChunk) ∧
      ∃ reason, alloc n pool = .error reason pool) := by
  have unfolded : alloc n pool = EStateM.bind (ensureFree n) (fun _ => popFree n) pool := by
    unfold alloc
    rw [if_neg (by omega)]
    rfl
  have ensured : ensureFree n pool = (if n ≤ pool.free.length then pure ()
      else if pool.inCapture then throw _
      else grow (pool.poolSize + max n defaultGrowChunk) : PoolM Unit) pool := rfl
  by_cases fits : n ≤ pool.free.length
  · refine .inl ⟨pool, .enough fits, ?_⟩
    rw [unfolded, EStateM.bind, ensured, if_pos fits]
    rfl
  · have short : pool.free.length < n := by omega
    rw [if_neg fits] at ensured
    cases captured : pool.inCapture with
    | true =>
      refine .inr ⟨short, .inl rfl, ?_⟩
      rw [captured, if_pos rfl] at ensured
      have refused : alloc n pool = _ := unfolded.trans (by rw [EStateM.bind, ensured])
      exact ⟨_, refused⟩
    | false =>
      rw [captured, if_neg Bool.false_ne_true] at ensured
      by_cases within : pool.poolSize + max n defaultGrowChunk ≤ pool.maxPoolSize
      · refine .inl ⟨_, .growth short captured within, ?_⟩
        have larger : pool.poolSize < pool.poolSize + max n defaultGrowChunk := by
          have chunk : n ≤ max n defaultGrowChunk := Nat.le_max_left _ _
          omega
        rw [unfolded, EStateM.bind, ensured, grow_eq larger within]
      · have exceeds : pool.maxPoolSize < pool.poolSize + max n defaultGrowChunk := by omega
        obtain ⟨reason, refused⟩ := grow_refused exceeds
        refine .inr ⟨short, .inr exceeds, reason, ?_⟩
        rw [unfolded, EStateM.bind, ensured, refused]

end SpecBlockKVPool

/-- A pool with its buffers, and the slots its callers hold. -/
structure PoolHistory (E : Type) where
  buffered : BufferedPool E
  held : List Nat

namespace PoolHistory

variable {E : Type}

/-- Replace the bookkeeping and keep the buffers. -/
def withPool (state : PoolHistory E) (pool : SpecBlockKVPool) : PoolHistory E :=
  { state with buffered := { state.buffered with pool := pool } }

/-- One operation on the pool. -/
inductive Step [Zero E] : PoolHistory E → PoolHistory E → Prop
  | alloc (state : PoolHistory E) (n : Nat) (loc : List Nat) (final : BufferedPool E)
      (ran : state.buffered.alloc n = .ok loc final) : Step state ⟨final, loc ++ state.held⟩
  | allocRaises (state : PoolHistory E) (n : Nat) (reason : RuntimeError)
      (final : BufferedPool E) (ran : state.buffered.alloc n = .error reason final) :
      Step state ⟨final, state.held⟩
  | free (state : PoolHistory E) (indices kept : List Nat) (final : BufferedPool E)
      (holds : state.held.Perm (indices.filter (· ≠ 0) ++ kept))
      (ran : BufferedPool.withBuffers (SpecBlockKVPool.release indices) state.buffered =
        .ok () final) : Step state ⟨final, kept⟩
  | grow (state : PoolHistory E) (newSize : Nat) (final : BufferedPool E)
      (ran : BufferedPool.withBuffers (SpecBlockKVPool.grow newSize) state.buffered =
        .ok () final) : Step state ⟨final, state.held⟩
  | capture (state : PoolHistory E) (entered : Bool) :
      Step state (state.withPool { state.buffered.pool with inCapture := entered })
  | reset (state : PoolHistory E) :
      Step state ⟨{ state.buffered with pool := state.buffered.pool.reset }, []⟩
  | setKv (state : PoolHistory E) (kBuffer vBuffer : List (List E)) :
      Step state { state with buffered := ⟨state.buffered.pool, kBuffer, vBuffer⟩ }

/-- Histories of a new pool. -/
def system (E : Type) [Zero E] : System (PoolHistory E) where
  start := fun state => ∃ initialPoolSize maxPoolSize,
    SpecBlockKVPool.create initialPoolSize maxPoolSize = .ok state.buffered.pool ∧
      state.held = []
  step := Step

/-- Free and held slots are those from 1 to the size, the size keeps to the cap, and the pool
counts no more slots than are held. -/
structure Sound (pool : SpecBlockKVPool) (held : List Nat) : Prop where
  reserved : 0 < pool.poolSize
  placed : (pool.free ++ held).Perm (List.range' 1 (pool.poolSize - 1))
  capped : pool.poolSize ≤ pool.maxPoolSize
  counted : pool.nAlloc ≤ held.length

namespace Sound

open SpecBlockKVPool

variable {pool : SpecBlockKVPool} {held : List Nat}

theorem filled (sound : Sound pool held) :
    pool.free.length + held.length = pool.poolSize - 1 := by
  have size := sound.placed.length_eq
  rwa [List.length_append, List.length_range'] at size

theorem create {initialPoolSize maxPoolSize : Nat}
    (created : SpecBlockKVPool.create initialPoolSize maxPoolSize = .ok pool) :
    Sound pool [] := by
  unfold SpecBlockKVPool.create at created
  split at created
  next small => simp at created
  next enough =>
    obtain rfl := Except.ok.inj created
    have capped : initialPoolSize ≤
        if maxPoolSize < initialPoolSize then initialPoolSize else maxPoolSize := by
      split <;> omega
    exact ⟨by show 0 < initialPoolSize; omega, by simp, capped, by simp⟩

theorem grown {newSize : Nat} (sound : Sound pool held) (larger : pool.poolSize < newSize)
    (within : newSize ≤ pool.maxPoolSize) : Sound (grown newSize pool) held := by
  have start : 1 + (pool.poolSize - 1) = pool.poolSize := by have := sound.reserved; omega
  have whole : List.range' 1 (newSize - 1) = List.range' 1 (pool.poolSize - 1) ++
      List.range' pool.poolSize (newSize - pool.poolSize) := by
    have added : newSize - 1 = (pool.poolSize - 1) + (newSize - pool.poolSize) := by
      have := sound.reserved; omega
    rw [added, ← List.range'_append_1, start]
  refine ⟨Nat.lt_trans sound.reserved larger, ?_, within, sound.counted⟩
  show ((pool.free ++ List.range' pool.poolSize (newSize - pool.poolSize)) ++ held).Perm
    (List.range' 1 (newSize - 1))
  rw [whole, List.append_assoc]
  exact (List.perm_append_comm.append_left _).trans
    (by rw [← List.append_assoc]; exact sound.placed.append_right _)

theorem supplied {n : Nat} {supplied : SpecBlockKVPool} (sound : Sound pool held)
    (supply : Supply n pool supplied) : Sound supplied held := by
  cases supply with
  | enough fits => exact sound
  | growth short uncaptured within =>
    have chunk : n ≤ max n defaultGrowChunk := Nat.le_max_left _ _
    exact sound.grown (by omega) within

/-- Slots taken from the front of the queue are free ones, and callers hold them now. -/
theorem popFree {n : Nat} (sound : Sound pool held) (enough : n ≤ pool.free.length) :
    ∃ loc final, SpecBlockKVPool.popFree n pool = .ok loc final ∧ loc.length = n ∧
      loc.Subperm pool.free ∧ final.poolSize = pool.poolSize ∧ Sound final (loc ++ held) := by
  have sorted := List.perm_insertionSort (· ≤ ·) (pool.free.take n)
  have taken : ((pool.free.take n).insertionSort (· ≤ ·)).length = n := by
    rw [sorted.length_eq, List.length_take, Nat.min_eq_left enough]
  refine ⟨_, _, rfl, taken, sorted.subperm.trans (List.take_sublist n _).subperm, rfl, ?_⟩
  refine ⟨sound.reserved, ?_, sound.capped, ?_⟩
  · have whole : (pool.free.drop n ++ (pool.free.take n).insertionSort (· ≤ ·)).Perm pool.free :=
      (List.perm_append_comm.trans (sorted.append_right _)).trans (by rw [List.take_append_drop])
    show (pool.free.drop n ++ (_ ++ held)).Perm _
    rw [← List.append_assoc]
    exact (whole.append_right held).trans sound.placed
  · have counted := sound.counted
    show pool.nAlloc + n ≤ _
    rw [List.length_append, taken]
    omega

theorem release {indices kept : List Nat} {final : SpecBlockKVPool} (sound : Sound pool held)
    (holds : held.Perm (indices.filter (· ≠ 0) ++ kept))
    (ran : SpecBlockKVPool.release indices pool = .ok () final) :
    Sound final kept ∧ final.poolSize = pool.poolSize := by
  obtain rfl := PoolM.modify_ok.mp ran
  split
  next none =>
    rw [none] at holds
    exact ⟨⟨sound.reserved, (holds.symm.append_left _).trans sound.placed, sound.capped,
      holds.length_eq ▸ sound.counted⟩, rfl⟩
  next some =>
    refine ⟨⟨sound.reserved, ?_, sound.capped, ?_⟩, rfl⟩
    · show ((pool.free ++ indices.filter (· ≠ 0)) ++ kept).Perm _
      rw [List.append_assoc]
      exact (holds.symm.append_left _).trans sound.placed
    · have counted := sound.counted
      have real : (indices.filter (· ≠ 0)).length ≤ indices.length := List.length_filter_le _ _
      have size := holds.length_eq
      rw [List.length_append] at size
      show pool.nAlloc - indices.length ≤ _
      omega

theorem reset (sound : Sound pool held) : Sound pool.reset [] :=
  ⟨sound.reserved, by simp [SpecBlockKVPool.reset], sound.capped, by simp [SpecBlockKVPool.reset]⟩

/-- An allocation that succeeds hands out slots nobody holds. -/
theorem alloc_ok {n : Nat} {loc : List Nat} {final : SpecBlockKVPool} (sound : Sound pool held)
    (ran : SpecBlockKVPool.alloc n pool = .ok loc final) : Sound final (loc ++ held) := by
  rcases Nat.eq_zero_or_pos n with rfl | asked
  · obtain ⟨rfl, rfl⟩ := PoolM.pure_ok.mp ran
    exact sound
  · rcases alloc_cases n asked pool with ⟨supplied, supply, taken⟩ | ⟨-, -, reason, refused⟩
    · obtain ⟨other, last, popped, -, -, -, after⟩ :=
        (sound.supplied supply).popFree supply.length
      rw [taken, popped] at ran
      obtain ⟨rfl, rfl⟩ := EStateM.Result.ok.inj ran
      exact after
    · rw [refused] at ran
      cases ran

theorem alloc_error {n : Nat} {reason : RuntimeError} {final : SpecBlockKVPool}
    (sound : Sound pool held) (ran : SpecBlockKVPool.alloc n pool = .error reason final) :
    final = pool := by
  rcases Nat.eq_zero_or_pos n with rfl | asked
  · cases ran
  · rcases alloc_cases n asked pool with ⟨supplied, supply, taken⟩ | ⟨-, -, other, refused⟩
    · obtain ⟨loc, last, popped, -⟩ := (sound.supplied supply).popFree supply.length
      rw [taken, popped] at ran
      cases ran
    · rw [refused] at ran
      exact (EStateM.Result.error.inj ran).2.symm

theorem grow_ok {newSize : Nat} {final : SpecBlockKVPool} (sound : Sound pool held)
    (ran : SpecBlockKVPool.grow newSize pool = .ok () final) : Sound final held := by
  rcases Nat.lt_or_ge pool.maxPoolSize newSize with exceeds | within
  · obtain ⟨reason, refused⟩ := grow_refused exceeds
    rw [refused] at ran
    cases ran
  · rcases Nat.lt_or_ge pool.poolSize newSize with larger | smaller
    · rw [grow_eq larger within] at ran
      obtain rfl := (EStateM.Result.ok.inj ran).2
      exact sound.grown larger within
    · have unchanged : SpecBlockKVPool.grow newSize pool =
          (if pool.maxPoolSize < newSize then throw _ else
            if newSize ≤ pool.poolSize then pure () else _ : PoolM Unit) pool := rfl
      rw [if_neg (by omega), if_pos smaller] at unchanged
      rw [unchanged] at ran
      obtain rfl := (EStateM.Result.ok.inj ran).2
      exact sound

end Sound

theorem step_sound [Zero E] {state following : PoolHistory E}
    (sound : Sound state.buffered.pool state.held) (taken : Step state following) :
    Sound following.buffered.pool following.held := by
  cases taken with
  | alloc n loc final ran =>
    obtain ⟨last, popped, rfl⟩ := BufferedPool.withBuffers_ok.mp ran
    exact sound.alloc_ok popped
  | allocRaises n reason final ran =>
    obtain ⟨last, refused, rfl⟩ := BufferedPool.withBuffers_error.mp ran
    obtain rfl := sound.alloc_error refused
    exact sound
  | free indices kept final holds ran =>
    obtain ⟨last, released, rfl⟩ := BufferedPool.withBuffers_ok.mp ran
    exact (sound.release holds released).1
  | grow newSize final ran =>
    obtain ⟨last, larger, rfl⟩ := BufferedPool.withBuffers_ok.mp ran
    exact sound.grow_ok larger
  | capture entered => exact ⟨sound.reserved, sound.placed, sound.capped, sound.counted⟩
  | reset => exact sound.reset
  | setKv kBuffer vBuffer => exact sound

theorem reachable_sound [Zero E] {state : PoolHistory E}
    (reached : (system E).Reachable state) : Sound state.buffered.pool state.held := by
  refine reached.invariant (fun state => Sound state.buffered.pool state.held) ?_ ?_
  · rintro state ⟨initialPoolSize, maxPoolSize, created, none⟩
    rw [none]
    exact Sound.create created
  · intro state following sound taken
    exact step_sound sound taken

/-- Asked for slots that the cap leaves room for, the pool hands out distinct ones that were
free; asked for more, it raises. Either way a refusal changes nothing. -/
def UsableUpToCap [Zero E] (n : Nat) (state : PoolHistory E) : Prop :=
  if state.buffered.pool.nAlloc + n ≤ (state.buffered.pool.maxPoolSize : Int) - 1 then
    ∃ loc final, state.buffered.alloc n = .ok loc final ∧ loc.length = n ∧ loc.Nodup ∧
      ∀ slot ∈ loc, slot ≠ 0 ∧ slot ∉ state.held ∧ slot < final.pool.poolSize ∧
        (slot ∈ state.buffered.pool.free ∨ state.buffered.pool.poolSize ≤ slot)
  else ∃ reason, state.buffered.alloc n = .error reason state.buffered

/-- The free list covers the request, or a whole chunk fits under the cap, or the cap has no
room for the request. -/
def ChunkFits (n : Nat) (pool : SpecBlockKVPool) : Prop :=
  n ≤ pool.free.length ∨ pool.poolSize + max n defaultGrowChunk ≤ pool.maxPoolSize ∨
    (pool.maxPoolSize : Int) - 1 < pool.nAlloc + n

section outcomes

open SpecBlockKVPool

variable [Zero E] {state : PoolHistory E} {n : Nat}

/-- A supplied allocation hands out distinct slots that were free. -/
theorem alloc_supplied (sound : Sound state.buffered.pool state.held)
    {supplied : SpecBlockKVPool} (supply : Supply n state.buffered.pool supplied)
    (taken : SpecBlockKVPool.alloc n state.buffered.pool = popFree n supplied) :
    ∃ loc final, state.buffered.alloc n = .ok loc final ∧ loc.length = n ∧ loc.Nodup ∧
      ∀ slot ∈ loc, slot ≠ 0 ∧ slot ∉ state.held ∧ slot < final.pool.poolSize ∧
        (slot ∈ state.buffered.pool.free ∨ state.buffered.pool.poolSize ≤ slot) := by
  have suppliedSound := sound.supplied supply
  obtain ⟨loc, final, popped, size, fromFree, sameSize, -⟩ := suppliedSound.popFree supply.length
  have distinct : (supplied.free ++ state.held).Nodup :=
    suppliedSound.placed.nodup_iff.mpr List.nodup_range'
  obtain ⟨freeDistinct, -, apart⟩ := List.nodup_append.mp distinct
  refine ⟨loc, state.buffered.after final, ?_, size, ?_, ?_⟩
  · exact BufferedPool.withBuffers_ok.mpr ⟨final, taken.trans popped, rfl⟩
  · obtain ⟨ordered, same, part⟩ := fromFree
    exact same.nodup_iff.mp (freeDistinct.sublist part)
  · intro slot member
    have inFree : slot ∈ supplied.free := fromFree.subset member
    have inPool : 1 ≤ slot ∧ slot < 1 + (supplied.poolSize - 1) :=
      List.mem_range'_1.mp (suppliedSound.placed.subset (List.mem_append_left _ inFree))
    have reserved := suppliedSound.reserved
    refine ⟨by omega, fun isHeld => apart slot inFree slot isHeld rfl, ?_, ?_⟩
    · show slot < final.poolSize
      omega
    · cases supply with
      | enough fits => exact .inl inFree
      | growth short uncaptured within =>
        rcases List.mem_append.mp inFree with old | new
        · exact .inl old
        · exact .inr (List.mem_range'_1.mp new).1

omit [Zero E] in
theorem supply_room (sound : Sound state.buffered.pool state.held) {supplied : SpecBlockKVPool}
    (supply : Supply n state.buffered.pool supplied) :
    state.buffered.pool.nAlloc + n ≤ (state.buffered.pool.maxPoolSize : Int) - 1 := by
  have suppliedSound := sound.supplied supply
  have sameCap : supplied.maxPoolSize = state.buffered.pool.maxPoolSize := by
    cases supply <;> rfl
  have filled := suppliedSound.filled
  have capped := suppliedSound.capped
  have reserved := suppliedSound.reserved
  have counted := sound.counted
  have enough := supply.length
  omega

/-- A refused allocation leaves the pool and its buffers as they were. -/
theorem alloc_refused {reason : RuntimeError}
    (refused : SpecBlockKVPool.alloc n state.buffered.pool = .error reason state.buffered.pool) :
    state.buffered.alloc n = .error reason state.buffered :=
  BufferedPool.withBuffers_error.mpr ⟨_, refused, BufferedPool.after_same _ _ rfl⟩

end outcomes

end PoolHistory

/-- Outside graph capture the pool is usable up to its cap for just those requests that the
free list covers, that a whole chunk fits the cap for, or that the cap has no room for. -/
theorem alloc_up_to_cap {E : Type} [Zero E] (state : PoolHistory E)
    (reached : (PoolHistory.system E).Reachable state)
    (uncaptured : state.buffered.pool.inCapture = false) (n : Nat) (asked : 1 ≤ n) :
    PoolHistory.UsableUpToCap n state ↔ PoolHistory.ChunkFits n state.buffered.pool := by
  have sound := PoolHistory.reachable_sound reached
  unfold PoolHistory.UsableUpToCap PoolHistory.ChunkFits
  rcases SpecBlockKVPool.alloc_cases n asked state.buffered.pool with
    ⟨supplied, supply, taken⟩ | ⟨short, blocked, reason, refused⟩
  · have room := PoolHistory.supply_room sound supply
    rw [if_pos room]
    refine iff_of_true (PoolHistory.alloc_supplied sound supply taken) ?_
    cases supply with
    | enough fits => exact .inl fits
    | growth short uncaptured within => exact .inr (.inl within)
  · have failed := PoolHistory.alloc_refused refused
    have exceeds : state.buffered.pool.maxPoolSize <
        state.buffered.pool.poolSize + max n defaultGrowChunk := by
      rcases blocked with captured | exceeds
      · exact absurd captured (by simp [uncaptured])
      · exact exceeds
    split
    next room =>
      apply iff_of_false
      · rintro ⟨loc, final, succeeded, -⟩
        rw [failed] at succeeded
        cases succeeded
      · rintro (fits | fits | full) <;> omega
    next full => exact iff_of_true ⟨reason, failed⟩ (.inr (.inr (by omega)))

/-- A pool of twelve slots that may grow to fourteen. -/
def twelveOfFourteen : PoolHistory Nat where
  buffered := ⟨⟨12, 14, List.range' 1 11, 0, 0, false, 0⟩, [List.replicate 12 0],
    [List.replicate 12 0]⟩
  held := []

theorem twelveOfFourteen_reachable :
    (PoolHistory.system Nat).Reachable twelveOfFourteen :=
  .start _ ⟨12, 14, rfl, rfl⟩

/-- All free slots of a new pool of twelve can be allocated. -/
theorem alloc_up_to_cap_eleven : PoolHistory.UsableUpToCap 11 twelveOfFourteen :=
  (alloc_up_to_cap twelveOfFourteen twelveOfFourteen_reachable rfl 11 (by decide)).mpr
    (.inl (by decide))

/-- A pool of twelve slots with a cap of fourteen refuses twelve slots. -/
theorem alloc_refuses_twelve :
    (PoolHistory.system Nat).Reachable twelveOfFourteen ∧
      twelveOfFourteen.buffered.pool.inCapture = false ∧
      ¬ PoolHistory.UsableUpToCap 12 twelveOfFourteen := by
  refine ⟨.start _ ⟨12, 14, rfl, rfl⟩, rfl, ?_⟩
  rintro usable
  obtain ⟨loc, final, succeeded, -⟩ := usable
  exact absurd succeeded (by rw [show twelveOfFourteen.buffered.alloc 12 = .error _ _ from rfl]; simp)

end SpecBlock.Serving
