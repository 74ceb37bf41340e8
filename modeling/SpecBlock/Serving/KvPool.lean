import Mathlib.Algebra.Ring.Nat
import Mathlib.Data.List.Sort
import SpecBlock.Foundation.SlotLedger

/-!
# The paged cross-attention pool

`SpecBlockKVPool` hands the slots of its key and value buffers to draft requests.
The free list is a queue: slots are taken from its front and returned at its end.
Slot 0 is a zero sentinel and is never handed out. When the free list is too
short the pool grows up to its cap, unless a graph is being captured.

The pool is a state that operations change before they may raise, so an
operation that fails leaves the state it had reached. The buffers themselves are
not kept: no operation here reads them, and every replacement of the buffers
shows as a new pool version.
-/

namespace SpecBlock.Serving

/-- A raised `RuntimeError` with its text. -/
structure RuntimeError where
  message : String
  deriving DecidableEq, Repr

/-- Slots a pool grows by at least. -/
def defaultGrowChunk : Nat := 65536

/-- The bookkeeping of the pool. -/
structure SpecBlockKVPool where
  poolSize : Nat
  maxPoolSize : Nat
  free : List Nat
  nAlloc : Int
  highWater : Int
  inCapture : Bool
  poolVersion : Nat
  deriving DecidableEq, Repr

/-- Computations that use the pool and may raise. -/
abbrev PoolM := EStateM RuntimeError SpecBlockKVPool

namespace PoolM

variable {α β : Type}

theorem bind_ok {first : PoolM α} {rest : α → PoolM β} {pool final : SpecBlockKVPool}
    {result : β} :
    (first >>= rest) pool = .ok result final ↔
      ∃ value between, first pool = .ok value between ∧ rest value between = .ok result final := by
  change EStateM.bind first rest pool = _ ↔ _
  unfold EStateM.bind
  cases first pool with
  | ok value between => simp
  | error reason between => simp

theorem pure_ok {value result : α} {pool final : SpecBlockKVPool} :
    (pure value : PoolM α) pool = .ok result final ↔ value = result ∧ pool = final := by
  change EStateM.Result.ok value pool = _ ↔ _
  simp

theorem throw_ok {reason : RuntimeError} {result : α} {pool final : SpecBlockKVPool} :
    (throw reason : PoolM α) pool = .ok result final ↔ False := by
  change EStateM.Result.error reason pool = _ ↔ _
  simp

theorem get_ok {result : SpecBlockKVPool} {pool final : SpecBlockKVPool} :
    (get : PoolM SpecBlockKVPool) pool = .ok result final ↔ pool = result ∧ pool = final := by
  change EStateM.Result.ok pool pool = _ ↔ _
  simp

theorem set_ok {new : SpecBlockKVPool} {result : PUnit} {pool final : SpecBlockKVPool} :
    (set new : PoolM PUnit) pool = .ok result final ↔ new = final := by
  change EStateM.Result.ok PUnit.unit new = _ ↔ _
  simp

theorem modify_ok {update : SpecBlockKVPool → SpecBlockKVPool} {result : PUnit}
    {pool final : SpecBlockKVPool} :
    (modify update : PoolM PUnit) pool = .ok result final ↔ update pool = final := by
  change EStateM.Result.ok PUnit.unit (update pool) = _ ↔ _
  simp

end PoolM

namespace SpecBlockKVPool

/-- A new pool: a cap below the initial size is raised to it. -/
def create (initialPoolSize maxPoolSize : Nat) : Except String SpecBlockKVPool :=
  if initialPoolSize < 2 then
    .error s!"initial_pool_size must be >=2 (slot 0 is the zero sentinel), got {initialPoolSize}"
  else
    .ok {
      poolSize := initialPoolSize
      maxPoolSize := if maxPoolSize < initialPoolSize then initialPoolSize else maxPoolSize
      free := List.range' 1 (initialPoolSize - 1)
      nAlloc := 0
      highWater := 0
      inCapture := false
      poolVersion := 0 }

/-- Replace the buffers by larger ones; the new slots join the end of the queue. -/
def grow (newSize : Nat) : PoolM Unit := do
  let pool ← get
  if pool.maxPoolSize < newSize then
    throw ⟨s!"[SpecBlockKVPool] grow request {newSize} exceeds max_pool_size {pool.maxPoolSize}.  Current alloc={pool.nAlloc}, high_water={pool.highWater}.  Increase SPECBLOCK_KV_POOL_MAX or reduce concurrent reqs."⟩
  else if newSize ≤ pool.poolSize then
    return ()
  else
    set { pool with
      free := pool.free ++ List.range' pool.poolSize (newSize - pool.poolSize)
      poolSize := newSize
      poolVersion := pool.poolVersion + 1 }

/-- Take slots from the front of the queue, in ascending order. -/
def popFree (n : Nat) : PoolM (List Nat) := do
  let pool ← get
  set { pool with
    free := pool.free.drop n
    nAlloc := pool.nAlloc + n
    highWater := max pool.highWater (pool.nAlloc + n) }
  return (pool.free.take n).insertionSort (· ≤ ·)

/-- Grow the pool when its free list is too short, unless a graph is being captured. -/
def ensureFree (n : Nat) : PoolM Unit := do
  let pool ← get
  if n ≤ pool.free.length then
    return ()
  else if pool.inCapture then
    throw ⟨s!"[SpecBlockKVPool] alloc({n}) inside capture_mode would trigger grow (free={pool.free.length}, n_alloc={pool.nAlloc}, pool_size={pool.poolSize}).  Pre-grow before entering capture or reduce concurrent reqs."⟩
  else
    grow (pool.poolSize + max n defaultGrowChunk)

/-- Allocate slots. Asking for none touches nothing. -/
def alloc (n : Nat) : PoolM (List Nat) :=
  if n = 0 then return [] else do
    ensureFree n
    popFree n

/-- Return slots to the end of the queue; the sentinel is passed over. -/
def release (indices : List Nat) : PoolM Unit :=
  modify (fun pool => if indices = [] then pool else
    { pool with
      free := pool.free ++ indices.filter (· ≠ 0)
      nAlloc := pool.nAlloc - indices.length })

/-- What ownership of slots depends on. -/
def slots (pool : SpecBlockKVPool) : SlotState :=
  ⟨pool.free, pool.poolSize, pool.nAlloc⟩

theorem create_whole {initialPoolSize maxPoolSize : Nat} {pool : SpecBlockKVPool}
    (created : create initialPoolSize maxPoolSize = .ok pool) : Whole pool.slots [] := by
  unfold create at created
  split at created
  · simp at created
  · obtain rfl := Except.ok.inj created
    exact Whole.initial initialPoolSize (by omega)

/-- Growth adds the slots above the old size to the free list. -/
theorem grow_ledger {newSize : Nat} {pool final : SpecBlockKVPool}
    (grown : grow newSize pool = .ok () final) :
    Ledger pool.slots final.slots [] [] ∧
      final.free.length = pool.free.length + (newSize - pool.poolSize) := by
  simp only [grow, PoolM.bind_ok, PoolM.get_ok] at grown
  obtain ⟨current, between, ⟨rfl, rfl⟩, grown⟩ := grown
  split at grown
  · exact (PoolM.throw_ok.mp grown).elim
  · split at grown
    · obtain ⟨-, rfl⟩ := PoolM.pure_ok.mp grown
      exact ⟨Ledger.refl _ _, by omega⟩
    · have wider : pool.poolSize ≤ newSize := by omega
      obtain rfl := PoolM.set_ok.mp grown
      refine ⟨⟨wider, ?_, rfl⟩, by simp⟩
      simp [slots]

/-- Taking slots moves them from the free list to the caller. -/
theorem popFree_ledger {n : Nat} {pool final : SpecBlockKVPool} {loc : List Nat}
    (enough : n ≤ pool.free.length) (popped : popFree n pool = .ok loc final) :
    Ledger pool.slots final.slots [] loc ∧ loc.length = n := by
  simp only [popFree, PoolM.bind_ok, PoolM.get_ok, PoolM.set_ok, PoolM.pure_ok] at popped
  obtain ⟨current, between, ⟨rfl, rfl⟩, done, after, rfl, rfl, rfl⟩ := popped
  have sorted := List.perm_insertionSort (· ≤ ·) (pool.free.take n)
  have taken : ((pool.free.take n).insertionSort (· ≤ ·)).length = n := by
    rw [sorted.length_eq, List.length_take, Nat.min_eq_left enough]
  refine ⟨⟨Nat.le_refl _, ?_, ?_⟩, taken⟩
  · have split : (pool.free.drop n ++ (pool.free.take n).insertionSort (· ≤ ·)).Perm pool.free :=
      (List.perm_append_comm.trans (sorted.append_right _)).trans (by rw [List.take_append_drop])
    simpa [slots] using split
  · simp [slots, taken]

theorem ensureFree_ledger {n : Nat} {pool final : SpecBlockKVPool}
    (ensured : ensureFree n pool = .ok () final) :
    Ledger pool.slots final.slots [] [] ∧ n ≤ final.free.length := by
  simp only [ensureFree, PoolM.bind_ok, PoolM.get_ok] at ensured
  obtain ⟨current, between, ⟨rfl, rfl⟩, ensured⟩ := ensured
  split at ensured
  next enough =>
    obtain ⟨-, rfl⟩ := PoolM.pure_ok.mp ensured
    exact ⟨Ledger.refl _ _, enough⟩
  next short =>
    split at ensured
    · exact (PoolM.throw_ok.mp ensured).elim
    · obtain ⟨entry, longer⟩ := grow_ledger ensured
      have chunk : n ≤ max n defaultGrowChunk := Nat.le_max_left _ _
      exact ⟨entry, by omega⟩

/-- Allocation hands out as many slots as asked for, from the free list or from growth. -/
theorem alloc_ledger {n : Nat} {pool final : SpecBlockKVPool} {loc : List Nat}
    (allocated : alloc n pool = .ok loc final) :
    Ledger pool.slots final.slots [] loc ∧ loc.length = n := by
  unfold alloc at allocated
  split at allocated
  next none =>
    obtain ⟨rfl, rfl⟩ := PoolM.pure_ok.mp allocated
    exact ⟨Ledger.refl _ _, none.symm⟩
  next some =>
    obtain ⟨done, between, ensured, popped⟩ := PoolM.bind_ok.mp allocated
    obtain ⟨grown, enough⟩ := ensureFree_ledger ensured
    obtain ⟨taken, exactly⟩ := popFree_ledger enough popped
    exact ⟨grown.trans taken, exactly⟩

theorem release_ledger {indices : List Nat} {pool final : SpecBlockKVPool}
    (real : 0 ∉ indices) (released : release indices pool = .ok () final) :
    Ledger pool.slots final.slots indices [] := by
  obtain rfl := PoolM.modify_ok.mp released
  split
  next none => exact none ▸ Ledger.refl _ _
  next some =>
    have kept : indices.filter (· ≠ 0) = indices := by
      apply List.filter_eq_self.mpr
      intro slot member
      have : slot ≠ 0 := fun zero => real (zero ▸ member)
      simpa using this
    refine ⟨Nat.le_refl _, ?_, ?_⟩
    · rw [slots, slots, kept]
      simp
    · simp [slots]

end SpecBlockKVPool

end SpecBlock.Serving
