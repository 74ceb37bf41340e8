import SpecBlock.Serving.PoolCapacity

/-!
# Captured graphs over a growing pool

The draft and the refresh of a worker replay CUDA graphs that were captured over the buffers of one
shared pool. Growth replaces the buffers and raises the pool's version. A runner stamps every graph
with the version at its capture, and `can_run` drops all graphs when one of them carries another
version. The refresh runner checks the stamp again when it replays; the draft runner does not, and
relies on its caller to ask `can_run` first.

Calls are made in any order here. The storage of the buffers has a name of its own that changes when
the buffers are replaced, and a graph records the storage it was captured over. What a runner's last
`can_run` saw as the pool's version is kept beside the state; no code reads it.
-/

namespace SpecBlock.Serving

namespace SpecBlockKVPool

/-- `reset` on the pool of the runners. -/
def resetPool : PoolM Unit := modify reset

/-- Enter `capture_mode`. -/
def enterCapture : PoolM Unit := do
  let pool ← get
  if pool.inCapture then
    throw ⟨"[SpecBlockKVPool] capture_mode is not re-entrant; an outer cuda graph capture is already active."⟩
  else
    set { pool with inCapture := true }

/-- Leave `capture_mode`. -/
def exitCapture : PoolM Unit := modify (fun pool => { pool with inCapture := false })

end SpecBlockKVPool

/-- Batch capacity, cross bucket, and pending or accept bucket of a graph. -/
abbrev GraphKey := Nat × Nat × Nat

/-- The two runners of a worker. -/
inductive RunnerKind where
  | draft
  | refresh
  deriving DecidableEq, Repr

/-- A runner's graphs, each with the storage it was captured over, and its stamps of the pool's
version. -/
structure GraphRunner where
  graphs : List (GraphKey × Nat)
  poolVersionPerGraph : List (GraphKey × Nat)
  deriving DecidableEq, Repr

/-- Capacities that can be captured. -/
structure GraphBuckets where
  draftBs : List Nat
  pendBucket : Option Nat
  refreshBs : List Nat
  crossBuckets : List Nat
  acceptBuckets : List Nat

/-- The keys `capture_one` does not refuse. -/
def GraphBuckets.supports (buckets : GraphBuckets) : RunnerKind → GraphKey → Bool
  | .draft, (bcap, _, pb) => decide (bcap ∈ buckets.draftBs) && decide (some pb = buckets.pendBucket)
  | .refresh, (bcap, crossBucket, acceptBucket) =>
    decide (bcap ∈ buckets.refreshBs) && decide (crossBucket ∈ buckets.crossBuckets) &&
      decide (acceptBucket ∈ buckets.acceptBuckets)

namespace GraphRunner

/-- Keys of a dictionary. -/
def keys (entries : List (GraphKey × Nat)) : List GraphKey := entries.map Prod.fst

/-- Some graph has no stamp or one of another version. -/
def stale (runner : GraphRunner) (version : Nat) : Bool :=
  !runner.graphs.isEmpty &&
    (!((keys runner.poolVersionPerGraph).all (· ∈ keys runner.graphs) &&
        (keys runner.graphs).all (· ∈ keys runner.poolVersionPerGraph)) ||
      runner.poolVersionPerGraph.any (fun entry => entry.2 != version))

/-- `_invalidate_all`: graphs and pools are dropped together. -/
def invalidateAll : GraphRunner := ⟨[], []⟩

/-- `can_run`. -/
def canRun (runner : GraphRunner) (version : Nat) (key : GraphKey) : Bool × GraphRunner :=
  if runner.stale version then (false, invalidateAll)
  else (decide (key ∈ keys runner.graphs), runner)

/-- A graph captured over some storage and stamped with a version. -/
def capture (runner : GraphRunner) (buffers version : Nat) (key : GraphKey) : GraphRunner :=
  ⟨(key, buffers) :: runner.graphs, (key, version) :: runner.poolVersionPerGraph⟩

end GraphRunner

/-- The pool with the storage of its buffers, the runners, and the version each runner's last
`can_run` saw. -/
structure RunnersState where
  pool : SpecBlockKVPool
  buffers : Nat
  runner : RunnerKind → GraphRunner
  checked : RunnerKind → Nat

/-- A replayed graph with the storage and version it recorded, those of the pool at the replay, and
the version at the runner's last `can_run`. -/
structure Replayed where
  kind : RunnerKind
  key : GraphKey
  buffers : Nat
  version : Option Nat
  poolBuffers : Nat
  poolVersion : Nat
  checked : Nat
  deriving DecidableEq, Repr

/-- What a replayed graph recorded is current. -/
def Replayed.Current (event : Replayed) : Prop :=
  event.buffers = event.poolBuffers ∧ event.version = some event.poolVersion

instance (event : Replayed) : Decidable event.Current := inferInstanceAs (Decidable (_ ∧ _))

namespace RunnersState

/-- A new worker over a pool. -/
def fresh (pool : SpecBlockKVPool) : RunnersState :=
  ⟨pool, pool.poolVersion, fun _ => GraphRunner.invalidateAll, fun _ => pool.poolVersion⟩

/-- Keep the pool an operation reached; a larger one has new buffers. -/
def withPool (state : RunnersState) (pool : SpecBlockKVPool) : RunnersState :=
  { state with
    pool := pool
    buffers := if pool.poolSize = state.pool.poolSize then state.buffers else state.buffers + 1 }

/-- An operation of the pool, and whether it succeeds. -/
def onPool {α : Type} (state : RunnersState) (operation : PoolM α) : Bool × RunnersState :=
  match operation state.pool with
  | .ok _ pool => (true, state.withPool pool)
  | .error _ pool => (false, state.withPool pool)

/-- `can_run` of a runner. -/
def canRun (state : RunnersState) (kind : RunnerKind) (key : GraphKey) : Bool × RunnersState :=
  (((state.runner kind).canRun state.pool.poolVersion key).1, { state with
    runner := Function.update state.runner kind
      ((state.runner kind).canRun state.pool.poolVersion key).2
    checked := Function.update state.checked kind state.pool.poolVersion })

/-- `capture_one` of a runner, and whether it returns. The refresh runner enters `capture_mode`
itself; the work that is captured may fail. -/
def captureOne (buckets : GraphBuckets) (state : RunnersState) (kind : RunnerKind) (key : GraphKey)
    (fails : Bool) : Bool × RunnersState :=
  if buckets.supports kind key = false then (false, state)
  else if key ∈ GraphRunner.keys (state.runner kind).graphs then (true, state)
  else if (kind = .refresh ∧ state.pool.inCapture) ∨ fails then (false, state)
  else (true, { state with
    runner := Function.update state.runner kind
      ((state.runner kind).capture state.buffers state.pool.poolVersion key) })

/-- A graph that is replayed. -/
def replayed (state : RunnersState) (kind : RunnerKind) (key : GraphKey) (buffers : Nat) : Replayed :=
  ⟨kind, key, buffers, (state.runner kind).poolVersionPerGraph.lookup key, state.buffers,
    state.pool.poolVersion, state.checked kind⟩

/-- `replay` of a runner: what it replays, if it does. Copying the inputs may fail. Only the refresh
runner looks at the stamp. -/
def replay (state : RunnersState) (kind : RunnerKind) (key : GraphKey) (fails : Bool) :
    RunnersState × List Replayed :=
  match (state.runner kind).graphs.lookup key with
  | none => (state, [])
  | some buffers =>
    match kind with
    | .draft => (state, if fails then [] else [state.replayed .draft key buffers])
    | .refresh =>
      if (state.runner .refresh).poolVersionPerGraph.lookup key = some state.pool.poolVersion then
        (state, if fails then [] else [state.replayed .refresh key buffers])
      else ({ state with
        runner := Function.update state.runner .refresh GraphRunner.invalidateAll }, [])

end RunnersState

/-- Calls of the pool and the runners. -/
inductive RunnerCall where
  | alloc (n : Nat)
  | free (indices : List Nat)
  | reset
  | enterCapture
  | exitCapture
  | canRun (kind : RunnerKind) (key : GraphKey)
  | captureOne (kind : RunnerKind) (key : GraphKey) (fails : Bool)
  | replay (kind : RunnerKind) (key : GraphKey) (fails : Bool)

/-- A call, and what it replays. -/
def RunnersState.call (buckets : GraphBuckets) (state : RunnersState) :
    RunnerCall → RunnersState × List Replayed
  | .alloc n => ((state.onPool (SpecBlockKVPool.alloc n)).2, [])
  | .free indices => ((state.onPool (SpecBlockKVPool.release indices)).2, [])
  | .reset => ((state.onPool SpecBlockKVPool.resetPool).2, [])
  | .enterCapture => ((state.onPool SpecBlockKVPool.enterCapture).2, [])
  | .exitCapture => ((state.onPool SpecBlockKVPool.exitCapture).2, [])
  | .canRun kind key => ((state.canRun kind key).2, [])
  | .captureOne kind key fails => ((state.captureOne buckets kind key fails).2, [])
  | .replay kind key fails => state.replay kind key fails

/-- What a sequence of calls replays. -/
def RunnersState.callAll (buckets : GraphBuckets) : RunnersState → List RunnerCall → List Replayed
  | _, [] => []
  | state, call :: rest =>
    (state.call buckets call).2 ++ RunnersState.callAll buckets (state.call buckets call).1 rest

/-! ## The worker's rounds -/

/-- Rounds of the worker: the cross cache of a prefilled request is moved into the pool, trees are
drafted, draft states are refreshed after a verification, requests release their slots, and the
pool is cleared. -/
inductive WorkerRound where
  | denseToPaged (count : Nat)
  | draft (key : GraphKey) (captureFails replayFails : Bool)
  | refresh (dropped : List (List Nat)) (needed : List Nat) (key : GraphKey)
      (captureFails replayFails : Bool)
  | release (indices : List Nat)
  | clearCachePool

namespace RunnersState

/-- Allocate for every request, until one allocation raises. -/
def allocAll (state : RunnersState) : List Nat → Bool × RunnersState
  | [] => (true, state)
  | n :: rest =>
    match state.onPool (SpecBlockKVPool.alloc n) with
    | (true, following) => following.allocAll rest
    | (false, following) => (false, following)

/-- `draft`: a graph that cannot run is captured in `capture_mode`, and then replayed. -/
def draftRound (buckets : GraphBuckets) (state : RunnersState) (key : GraphKey)
    (captureFails replayFails : Bool) : RunnersState × List Replayed :=
  let checked := state.canRun .draft key
  if checked.1 then checked.2.replay .draft key replayFails
  else
    let entered := checked.2.onPool SpecBlockKVPool.enterCapture
    if entered.1 then
      let captured := entered.2.captureOne buckets .draft key captureFails
      let left := (captured.2.onPool SpecBlockKVPool.exitCapture).2
      if captured.1 then left.replay .draft key replayFails else (left, [])
    else (entered.2, [])

/-- `_refresh_draft_state`: rejected slots are returned, every request's new slots are allocated,
and only then the graph is checked, captured if it cannot run, and replayed. -/
def refreshRound (buckets : GraphBuckets) (state : RunnersState) (dropped : List (List Nat))
    (needed : List Nat) (key : GraphKey) (captureFails replayFails : Bool) :
    RunnersState × List Replayed :=
  let returned := dropped.foldl
    (fun state indices => (state.onPool (SpecBlockKVPool.release indices)).2) state
  let allocated := returned.allocAll needed
  if allocated.1 then
    let checked := allocated.2.canRun .refresh key
    if checked.1 then checked.2.replay .refresh key replayFails
    else
      let captured := checked.2.captureOne buckets .refresh key captureFails
      if captured.1 then captured.2.replay .refresh key replayFails else (captured.2, [])
  else (allocated.2, [])

/-- A round of the worker, and what it replays. -/
def round (buckets : GraphBuckets) (state : RunnersState) : WorkerRound → RunnersState × List Replayed
  | .denseToPaged count => ((state.onPool (SpecBlockKVPool.alloc count)).2, [])
  | .draft key captureFails replayFails => state.draftRound buckets key captureFails replayFails
  | .refresh dropped needed key captureFails replayFails =>
    state.refreshRound buckets dropped needed key captureFails replayFails
  | .release indices => ((state.onPool (SpecBlockKVPool.release indices)).2, [])
  | .clearCachePool => ((state.onPool SpecBlockKVPool.resetPool).2, [])

/-- `precapture_up_to`, at the worker's construction. -/
def precapture (buckets : GraphBuckets) (state : RunnersState) (keys : List (GraphKey × Bool)) :
    RunnersState :=
  keys.foldl (fun state key => (state.captureOne buckets .refresh key.1 key.2).2) state

/-- What the worker's rounds replay. -/
def rounds (buckets : GraphBuckets) : RunnersState → List WorkerRound → List Replayed
  | _, [] => []
  | state, round :: rest =>
    (state.round buckets round).2 ++ rounds buckets (state.round buckets round).1 rest

end RunnersState

/-! ## The pool's version -/

namespace SpecBlockKVPool

/-- An operation kept the buffers and the version, or replaced both. -/
def Follows (pool following : SpecBlockKVPool) : Prop :=
  (following.poolSize = pool.poolSize ∧ following.poolVersion = pool.poolVersion) ∨
    (pool.poolSize < following.poolSize ∧ following.poolVersion = pool.poolVersion + 1)

/-- The pool an operation reaches, also when it raises. -/
def reached {α : Type} (operation : PoolM α) (pool : SpecBlockKVPool) : SpecBlockKVPool :=
  match operation pool with
  | .ok _ following => following
  | .error _ following => following

theorem Follows.refl (pool : SpecBlockKVPool) : Follows pool pool := .inl ⟨rfl, rfl⟩

theorem follows_of_raises {α : Type} {operation : PoolM α} {pool : SpecBlockKVPool}
    {reason : RuntimeError} (raises : operation pool = .error reason pool) :
    Follows pool (reached operation pool) := by
  rw [reached, raises]
  exact Follows.refl pool

theorem grow_follows (newSize : Nat) (pool : SpecBlockKVPool) :
    Follows pool (reached (grow newSize) pool) := by
  by_cases large : pool.maxPoolSize < newSize
  · apply follows_of_raises
    show (if pool.maxPoolSize < newSize then _ else _ : PoolM Unit) pool = _
    rw [if_pos large]
    rfl
  · have run : grow newSize pool =
        if newSize ≤ pool.poolSize then .ok () pool
        else .ok () { pool with
          free := pool.free ++ List.range' pool.poolSize (newSize - pool.poolSize)
          poolSize := newSize
          poolVersion := pool.poolVersion + 1 } := by
      show (if pool.maxPoolSize < newSize then _ else _ : PoolM Unit) pool = _
      rw [if_neg large]
      split_ifs <;> rfl
    rw [reached, run]
    split_ifs with small
    · exact Follows.refl pool
    · exact .inr ⟨Nat.lt_of_not_le small, rfl⟩

theorem ensureFree_follows (n : Nat) (pool : SpecBlockKVPool) :
    Follows pool (reached (ensureFree n) pool) := by
  by_cases enough : n ≤ pool.free.length
  · have run : ensureFree n pool = .ok () pool := by
      show (if n ≤ pool.free.length then _ else _ : PoolM Unit) pool = _
      rw [if_pos enough]
      rfl
    rw [reached, run]
    exact Follows.refl pool
  · by_cases capturing : pool.inCapture
    · apply follows_of_raises
      show (if n ≤ pool.free.length then _ else _ : PoolM Unit) pool = _
      rw [if_neg enough, if_pos capturing]
      rfl
    · have run : ensureFree n pool = grow (pool.poolSize + max n defaultGrowChunk) pool := by
        show (if n ≤ pool.free.length then _ else _ : PoolM Unit) pool = _
        rw [if_neg enough, if_neg capturing]
      rw [reached, run]
      exact grow_follows _ pool

theorem alloc_follows (n : Nat) (pool : SpecBlockKVPool) :
    Follows pool (reached (alloc n) pool) := by
  by_cases none : n = 0
  · have run : alloc n pool = .ok [] pool := by rw [alloc, if_pos none]; rfl
    rw [reached, run]
    exact Follows.refl pool
  · have room := ensureFree_follows n pool
    unfold reached at room ⊢
    have run : alloc n pool = EStateM.bind (ensureFree n) (fun _ => popFree n) pool := by
      rw [alloc, if_neg none]; rfl
    rw [run, EStateM.bind]
    cases ensured : ensureFree n pool with
    | error reason following =>
      rw [ensured] at room
      exact room
    | ok done following =>
      rw [ensured] at room
      exact room

theorem release_follows (indices : List Nat) (pool : SpecBlockKVPool) :
    Follows pool (reached (release indices) pool) := by
  show Follows pool (if indices = [] then pool else _)
  split_ifs with none
  · exact Follows.refl pool
  · exact .inl ⟨rfl, rfl⟩

theorem resetPool_follows (pool : SpecBlockKVPool) : Follows pool (reached resetPool pool) :=
  .inl ⟨rfl, rfl⟩

/-- Entering `capture_mode` keeps the buffers and the version. -/
theorem enterCapture_kept (pool : SpecBlockKVPool) :
    (reached enterCapture pool).poolSize = pool.poolSize ∧
      (reached enterCapture pool).poolVersion = pool.poolVersion := by
  by_cases capturing : pool.inCapture
  · have run : enterCapture pool = (throw ⟨"[SpecBlockKVPool] capture_mode is not re-entrant; an outer cuda graph capture is already active."⟩ : PoolM Unit) pool := by
      show (if pool.inCapture then _ else _ : PoolM Unit) pool = _
      rw [if_pos capturing]
    rw [reached, run]
    exact ⟨rfl, rfl⟩
  · have run : enterCapture pool = .ok () { pool with inCapture := true } := by
      show (if pool.inCapture then _ else _ : PoolM Unit) pool = _
      rw [if_neg capturing]
      rfl
    rw [reached, run]
    exact ⟨rfl, rfl⟩

theorem exitCapture_follows (pool : SpecBlockKVPool) :
    Follows pool (reached exitCapture pool) :=
  .inl ⟨rfl, rfl⟩

end SpecBlockKVPool

/-! ## Graphs and stamps -/

/-- The storage is named by the version, graphs carry the stamps of their storage, no check saw a
later version, and a runner checked at the current version holds graphs of that version only. -/
structure Stamped (state : RunnersState) : Prop where
  buffers : state.buffers = state.pool.poolVersion
  same : ∀ kind, (state.runner kind).graphs = (state.runner kind).poolVersionPerGraph
  past : ∀ kind, state.checked kind ≤ state.pool.poolVersion
  recorded : ∀ kind, state.checked kind = state.pool.poolVersion →
    ∀ entry ∈ (state.runner kind).graphs, entry.2 = state.pool.poolVersion

namespace Stamped

variable {state : RunnersState}

theorem fresh (pool : SpecBlockKVPool) : Stamped (RunnersState.fresh pool) where
  buffers := rfl
  same := fun _ => rfl
  past := fun _ => Nat.le_refl _
  recorded := fun _ _ _ member => absurd member List.not_mem_nil

theorem onPool_snd {α : Type} (state : RunnersState) (operation : PoolM α) :
    (state.onPool operation).2 = state.withPool (SpecBlockKVPool.reached operation state.pool) := by
  unfold RunnersState.onPool SpecBlockKVPool.reached
  cases operation state.pool with
  | ok value following => rfl
  | error reason following => rfl

/-- Operations of the pool keep the stamps: after a growth no check is current. -/
theorem onPool (stamped : Stamped state) {α : Type} {operation : PoolM α}
    (follows : state.pool.Follows (SpecBlockKVPool.reached operation state.pool)) :
    Stamped (state.onPool operation).2 := by
  rw [onPool_snd]
  generalize SpecBlockKVPool.reached operation state.pool = following at follows
  rcases follows with ⟨size, version⟩ | ⟨larger, version⟩
  · have kept : (state.withPool following).buffers = state.buffers := if_pos size
    constructor
    · rw [kept, stamped.buffers]
      exact version.symm
    · exact stamped.same
    · intro kind
      exact (stamped.past kind).trans version.ge
    · intro kind current entry member
      exact (stamped.recorded kind (current.trans version) entry member).trans version.symm
  · have replaced : (state.withPool following).buffers = state.buffers + 1 :=
      if_neg (Nat.ne_of_gt larger)
    constructor
    · rw [replaced, stamped.buffers]
      exact version.symm
    · exact stamped.same
    · intro kind
      exact (stamped.past kind).trans ((Nat.le_succ _).trans version.ge)
    · intro kind current
      have seen : state.checked kind = state.pool.poolVersion + 1 := current.trans version
      have earlier := stamped.past kind
      omega

/-- A runner that is not stale holds graphs of the current version only. -/
theorem not_stale {runner : GraphRunner} {version : Nat}
    (same : runner.graphs = runner.poolVersionPerGraph) (fresh : runner.stale version = false) :
    ∀ entry ∈ runner.graphs, entry.2 = version := by
  intro entry member
  have nonempty : runner.graphs.isEmpty = false := by
    rw [List.isEmpty_eq_false_iff]
    exact List.ne_nil_of_mem member
  rw [GraphRunner.stale, nonempty, Bool.not_false, Bool.true_and, Bool.or_eq_false_iff] at fresh
  have current := List.any_eq_false.mp fresh.2 entry (same ▸ member)
  simpa using current

theorem canRun (stamped : Stamped state) (kind : RunnerKind) (key : GraphKey) :
    Stamped (state.canRun kind key).2 := by
  have kept : ((state.runner kind).canRun state.pool.poolVersion key).2.graphs =
        ((state.runner kind).canRun state.pool.poolVersion key).2.poolVersionPerGraph ∧
      ∀ entry ∈ ((state.runner kind).canRun state.pool.poolVersion key).2.graphs,
        entry.2 = state.pool.poolVersion := by
    rw [GraphRunner.canRun]
    cases stale : (state.runner kind).stale state.pool.poolVersion with
    | true => exact ⟨rfl, fun _ member => absurd member List.not_mem_nil⟩
    | false => exact ⟨stamped.same kind, not_stale (stamped.same kind) stale⟩
  constructor
  · exact stamped.buffers
  · intro other
    by_cases here : other = kind
    · subst here
      simpa [RunnersState.canRun] using kept.1
    · simpa [RunnersState.canRun, here] using stamped.same other
  · intro other
    by_cases here : other = kind
    · subst here
      simp [RunnersState.canRun]
    · simpa [RunnersState.canRun, here] using stamped.past other
  · intro other current
    by_cases here : other = kind
    · subst here
      simpa [RunnersState.canRun] using kept.2
    · simp only [RunnersState.canRun, Function.update_of_ne here] at current ⊢
      exact stamped.recorded other current

/-- A capture records the current storage and stamps it with the current version. -/
theorem captureOne (stamped : Stamped state) (buckets : GraphBuckets) (kind : RunnerKind)
    (key : GraphKey) (fails : Bool) : Stamped (state.captureOne buckets kind key fails).2 := by
  unfold RunnersState.captureOne
  split_ifs with unsupported held failed
  · exact stamped
  · exact stamped
  · exact stamped
  · constructor
    · exact stamped.buffers
    · intro other
      by_cases here : other = kind
      · subst here
        simp [GraphRunner.capture, stamped.same other, stamped.buffers]
      · simpa [here] using stamped.same other
    · exact stamped.past
    · intro other current
      by_cases here : other = kind
      · subst here
        intro entry member
        simp only [Function.update_self, GraphRunner.capture, List.mem_cons] at member
        rcases member with rfl | member
        · exact stamped.buffers
        · exact stamped.recorded other current entry member
      · simpa [here] using stamped.recorded other current

theorem replay (stamped : Stamped state) (kind : RunnerKind) (key : GraphKey) (fails : Bool) :
    Stamped (state.replay kind key fails).1 := by
  unfold RunnersState.replay
  split
  · exact stamped
  · cases kind with
    | draft => exact stamped
    | refresh =>
      by_cases current : (state.runner .refresh).poolVersionPerGraph.lookup key =
          some state.pool.poolVersion
      · simpa only [current, if_true] using stamped
      · simp only [current, if_false]
        constructor
        · exact stamped.buffers
        · intro other
          cases other with
          | draft => exact stamped.same .draft
          | refresh => rfl
        · exact stamped.past
        · intro other current
          cases other with
          | draft => exact stamped.recorded .draft current
          | refresh => exact fun _ member => absurd member List.not_mem_nil

/-- What a replay replays: a graph of the key, for the refresh runner with a current stamp. -/
theorem mem_replay {kind : RunnerKind} {key : GraphKey} {fails : Bool} {event : Replayed}
    (member : event ∈ (state.replay kind key fails).2) : ∃ buffers,
      (state.runner kind).graphs.lookup key = some buffers ∧
      event = state.replayed kind key buffers ∧
      (kind = .refresh →
        (state.runner kind).poolVersionPerGraph.lookup key = some state.pool.poolVersion) := by
  have kept (only : Replayed) (listed : event ∈ if fails then [] else [only]) : event = only := by
    cases fails with
    | true => exact absurd listed List.not_mem_nil
    | false => exact List.mem_singleton.mp listed
  unfold RunnersState.replay at member
  cases found : (state.runner kind).graphs.lookup key with
  | none =>
    rw [found] at member
    exact absurd member List.not_mem_nil
  | some buffers =>
    rw [found] at member
    cases kind with
    | draft => exact ⟨buffers, rfl, kept _ member, fun refresh => by cases refresh⟩
    | refresh =>
      by_cases current : (state.runner .refresh).poolVersionPerGraph.lookup key =
          some state.pool.poolVersion
      · simp only [current, if_true] at member
        exact ⟨buffers, rfl, kept _ member, fun _ => current⟩
      · simp only [current, if_false] at member
        exact absurd member List.not_mem_nil

/-- What is replayed is current, for a refresh graph by its own check and for a draft graph when
the pool has the version of the runner's last check. -/
theorem replayed_current (stamped : Stamped state) {kind : RunnerKind} {key : GraphKey} {fails : Bool}
    {event : Replayed} (member : event ∈ (state.replay kind key fails).2)
    (guarded : event.kind = .refresh ∨ event.checked = event.poolVersion) : event.Current := by
  obtain ⟨buffers, found, rfl, refreshed⟩ := mem_replay member
  have stamp : (state.runner kind).poolVersionPerGraph.lookup key = some buffers := by
    rw [← stamped.same kind, found]
  have version : buffers = state.pool.poolVersion := by
    rcases guarded with isRefresh | checked
    · exact Option.some.inj (stamp.symm.trans (refreshed isRefresh))
    · obtain ⟨before, after, entries, -⟩ := List.lookup_eq_some_iff.mp found
      have entry : (key, buffers) ∈ (state.runner kind).graphs := by simp [entries]
      exact stamped.recorded kind checked _ entry
  exact ⟨version.trans stamped.buffers.symm, stamp.trans (congrArg some version)⟩

theorem call (stamped : Stamped state) (buckets : GraphBuckets) (call : RunnerCall) :
    Stamped (state.call buckets call).1 := by
  cases call with
  | alloc n => exact stamped.onPool (SpecBlockKVPool.alloc_follows n state.pool)
  | free indices => exact stamped.onPool (SpecBlockKVPool.release_follows indices state.pool)
  | reset => exact stamped.onPool (SpecBlockKVPool.resetPool_follows state.pool)
  | enterCapture => exact stamped.onPool (.inl (SpecBlockKVPool.enterCapture_kept state.pool))
  | exitCapture => exact stamped.onPool (SpecBlockKVPool.exitCapture_follows state.pool)
  | canRun kind key => exact stamped.canRun kind key
  | captureOne kind key fails => exact stamped.captureOne buckets kind key fails
  | replay kind key fails => exact stamped.replay kind key fails

theorem call_current (stamped : Stamped state) (buckets : GraphBuckets) (call : RunnerCall)
    {event : Replayed} (member : event ∈ (state.call buckets call).2)
    (guarded : event.kind = .refresh ∨ event.checked = event.poolVersion) : event.Current := by
  cases call with
  | replay kind key fails => exact stamped.replayed_current member guarded
  | _ => exact absurd member List.not_mem_nil

/-- In any order of calls, what is replayed under a current check is current. -/
theorem callAll (buckets : GraphBuckets) {calls : List RunnerCall} :
    ∀ {state : RunnersState}, Stamped state → ∀ event ∈ state.callAll buckets calls,
      (event.kind = .refresh ∨ event.checked = event.poolVersion) → event.Current := by
  induction calls with
  | nil =>
    intro state _ event member
    exact absurd member List.not_mem_nil
  | cons call rest ih =>
    intro state stamped event member guarded
    rcases List.mem_append.mp member with now | later
    · exact stamped.call_current buckets call now guarded
    · exact ih (stamped.call buckets call) event later guarded

end Stamped

/-! ## Rounds -/

/-- What is replayed is current, and the pool has not grown since the runner's last check. -/
def Replayed.Checked (event : Replayed) : Prop :=
  event.Current ∧ event.checked = event.poolVersion

namespace Stamped

variable {state : RunnersState} {kind : RunnerKind}

/-- A replay of a runner that was checked at the current version. -/
theorem replay_checked (stamped : Stamped state) (checked : state.checked kind = state.pool.poolVersion)
    (key : GraphKey) (fails : Bool) : ∀ event ∈ (state.replay kind key fails).2, event.Checked := by
  intro event member
  obtain ⟨buffers, -, same, -⟩ := mem_replay member
  have guarded : event.checked = event.poolVersion := by
    rw [same]
    exact checked
  exact ⟨stamped.replayed_current member (.inr guarded), guarded⟩

/-- After `can_run` a runner is checked at the current version. -/
theorem canRun_checked (state : RunnersState) (kind : RunnerKind) (key : GraphKey) :
    (state.canRun kind key).2.checked kind = (state.canRun kind key).2.pool.poolVersion := by
  simp [RunnersState.canRun]

theorem captureOne_checked (buckets : GraphBuckets) (state : RunnersState) (kind : RunnerKind)
    (key : GraphKey) (fails : Bool) :
    (state.captureOne buckets kind key fails).2.checked = state.checked ∧
      (state.captureOne buckets kind key fails).2.pool = state.pool := by
  unfold RunnersState.captureOne
  split_ifs <;> exact ⟨rfl, rfl⟩

/-- Operations that keep the version keep a current check current. -/
theorem onPool_checked {α : Type} {operation : PoolM α}
    (checked : state.checked kind = state.pool.poolVersion)
    (kept : (SpecBlockKVPool.reached operation state.pool).poolVersion = state.pool.poolVersion) :
    (state.onPool operation).2.checked kind = (state.onPool operation).2.pool.poolVersion := by
  rw [onPool_snd]
  exact checked.trans kept.symm

theorem allocAll (needed : List Nat) : ∀ {state : RunnersState}, Stamped state →
    Stamped (state.allocAll needed).2 := by
  induction needed with
  | nil => exact fun stamped => stamped
  | cons n rest ih =>
    intro state stamped
    have allocated := stamped.onPool (SpecBlockKVPool.alloc_follows n state.pool)
    unfold RunnersState.allocAll
    rcases ended : state.onPool (SpecBlockKVPool.alloc n) with ⟨succeeds, following⟩
    rw [ended] at allocated
    cases succeeds with
    | true => exact ih allocated
    | false => exact allocated

theorem releaseAll (dropped : List (List Nat)) : ∀ {state : RunnersState}, Stamped state →
    Stamped (dropped.foldl
      (fun state indices => (state.onPool (SpecBlockKVPool.release indices)).2) state) := by
  induction dropped with
  | nil => exact fun stamped => stamped
  | cons indices rest ih =>
    intro state stamped
    exact ih
      (stamped.onPool (SpecBlockKVPool.release_follows indices state.pool))

theorem captureOne_replay (stamped : Stamped state)
    (checked : state.checked kind = state.pool.poolVersion) (buckets : GraphBuckets)
    (key : GraphKey) (fails : Bool) :
    Stamped (state.captureOne buckets kind key fails).2 ∧
      (state.captureOne buckets kind key fails).2.checked kind =
        (state.captureOne buckets kind key fails).2.pool.poolVersion := by
  obtain ⟨sameChecked, samePool⟩ := captureOne_checked buckets state kind key fails
  refine ⟨stamped.captureOne buckets kind key fails, ?_⟩
  rw [sameChecked, samePool, checked]

/-- A round of drafting keeps the stamps and replays a checked graph. -/
theorem draftRound (stamped : Stamped state) (buckets : GraphBuckets) (key : GraphKey)
    (captureFails replayFails : Bool) :
    Stamped (state.draftRound buckets key captureFails replayFails).1 ∧
      ∀ event ∈ (state.draftRound buckets key captureFails replayFails).2, event.Checked := by
  have checkedStamps := stamped.canRun .draft key
  have checked := canRun_checked state .draft key
  unfold RunnersState.draftRound
  generalize state.canRun .draft key = answer at checkedStamps checked
  obtain ⟨ready, asked⟩ := answer
  cases ready with
  | true => exact ⟨checkedStamps.replay .draft key replayFails,
      checkedStamps.replay_checked checked key replayFails⟩
  | false =>
    have enteredStamps := checkedStamps.onPool (.inl (SpecBlockKVPool.enterCapture_kept asked.pool))
    have entered := onPool_checked checked (SpecBlockKVPool.enterCapture_kept asked.pool).2
    simp only [Bool.false_eq_true, if_false]
    generalize asked.onPool SpecBlockKVPool.enterCapture = answer at enteredStamps entered
    obtain ⟨open', inside⟩ := answer
    cases open' with
    | false => exact ⟨enteredStamps, fun _ member => absurd member List.not_mem_nil⟩
    | true =>
      obtain ⟨capturedStamps, captured⟩ :=
        enteredStamps.captureOne_replay entered buckets key captureFails
      simp only [if_true]
      generalize inside.captureOne buckets .draft key captureFails = answer at capturedStamps captured
      obtain ⟨succeeds, after⟩ := answer
      have leftStamps := capturedStamps.onPool (SpecBlockKVPool.exitCapture_follows after.pool)
      have left := onPool_checked captured
        (show (SpecBlockKVPool.reached SpecBlockKVPool.exitCapture after.pool).poolVersion = _ from rfl)
      cases succeeds with
      | false => exact ⟨leftStamps, fun _ member => absurd member List.not_mem_nil⟩
      | true => exact ⟨leftStamps.replay .draft key replayFails,
          leftStamps.replay_checked left key replayFails⟩

/-- A round of refreshing keeps the stamps and replays a checked graph. -/
theorem refreshRound (stamped : Stamped state) (buckets : GraphBuckets) (dropped : List (List Nat))
    (needed : List Nat) (key : GraphKey) (captureFails replayFails : Bool) :
    Stamped (state.refreshRound buckets dropped needed key captureFails replayFails).1 ∧
      ∀ event ∈ (state.refreshRound buckets dropped needed key captureFails replayFails).2,
        event.Checked := by
  have allocatedStamps := (stamped.releaseAll dropped).allocAll needed
  unfold RunnersState.refreshRound
  dsimp only
  generalize (dropped.foldl (fun state indices =>
    (state.onPool (SpecBlockKVPool.release indices)).2) state).allocAll needed = answer
      at allocatedStamps
  obtain ⟨succeeds, allocated⟩ := answer
  cases succeeds with
  | false => exact ⟨allocatedStamps, fun _ member => absurd member List.not_mem_nil⟩
  | true =>
    have checkedStamps := allocatedStamps.canRun .refresh key
    have checked := canRun_checked allocated .refresh key
    simp only [if_true]
    generalize allocated.canRun .refresh key = answer at checkedStamps checked
    obtain ⟨ready, asked⟩ := answer
    cases ready with
    | true => exact ⟨checkedStamps.replay .refresh key replayFails,
        checkedStamps.replay_checked checked key replayFails⟩
    | false =>
      obtain ⟨capturedStamps, captured⟩ :=
        checkedStamps.captureOne_replay checked buckets key captureFails
      simp only [Bool.false_eq_true, if_false]
      generalize asked.captureOne buckets .refresh key captureFails = answer at capturedStamps captured
      obtain ⟨succeeds, after⟩ := answer
      cases succeeds with
      | false => exact ⟨capturedStamps, fun _ member => absurd member List.not_mem_nil⟩
      | true => exact ⟨capturedStamps.replay .refresh key replayFails,
          capturedStamps.replay_checked captured key replayFails⟩

/-- A round of the worker keeps the stamps and replays checked graphs only. -/
theorem round (stamped : Stamped state) (buckets : GraphBuckets) (round : WorkerRound) :
    Stamped (state.round buckets round).1 ∧
      ∀ event ∈ (state.round buckets round).2, event.Checked := by
  cases round with
  | denseToPaged count =>
    exact ⟨stamped.onPool (SpecBlockKVPool.alloc_follows count state.pool),
      fun _ member => absurd member List.not_mem_nil⟩
  | draft key captureFails replayFails =>
    exact stamped.draftRound buckets key captureFails replayFails
  | refresh dropped needed key captureFails replayFails =>
    exact stamped.refreshRound buckets dropped needed key captureFails replayFails
  | release indices =>
    exact ⟨stamped.onPool (SpecBlockKVPool.release_follows indices state.pool),
      fun _ member => absurd member List.not_mem_nil⟩
  | clearCachePool =>
    exact ⟨stamped.onPool (SpecBlockKVPool.resetPool_follows state.pool),
      fun _ member => absurd member List.not_mem_nil⟩

theorem precapture (buckets : GraphBuckets) (keys : List (GraphKey × Bool)) :
    ∀ {state : RunnersState}, Stamped state → Stamped (state.precapture buckets keys) := by
  induction keys with
  | nil => exact fun stamped => stamped
  | cons key rest ih =>
    intro state stamped
    exact ih (stamped.captureOne buckets .refresh key.1 key.2)

theorem rounds (buckets : GraphBuckets) {rounds : List WorkerRound} :
    ∀ {state : RunnersState}, Stamped state →
      ∀ event ∈ state.rounds buckets rounds, event.Checked := by
  induction rounds with
  | nil =>
    intro state _ event member
    exact absurd member List.not_mem_nil
  | cons round rest ih =>
    intro state stamped event member
    obtain ⟨following, now⟩ := stamped.round buckets round
    rcases List.mem_append.mp member with here | later
    · exact now event here
    · exact ih following event later

end Stamped

/-- In every order of calls, a refresh graph that is replayed is current, and so is a draft graph if
the pool has not grown since the draft runner's last `can_run`. In every run of the worker's rounds,
whose captures before the first one may be any, every replayed graph is current, and the pool has
not grown since the check of its runner. -/
theorem replays_current (buckets : GraphBuckets) (pool : SpecBlockKVPool) (calls : List RunnerCall)
    (precaptured : List (GraphKey × Bool)) (rounds : List WorkerRound) :
    (∀ event ∈ (RunnersState.fresh pool).callAll buckets calls,
      (event.kind = .refresh ∨ event.checked = event.poolVersion) → event.Current) ∧
    ∀ event ∈ ((RunnersState.fresh pool).precapture buckets precaptured).rounds buckets rounds,
      event.Current ∧ event.checked = event.poolVersion :=
  ⟨(Stamped.fresh pool).callAll buckets,
    ((Stamped.fresh pool).precapture buckets precaptured).rounds buckets⟩

/-- A draft graph is captured, the pool grows, and the graph is replayed without a check. -/
def uncheckedCalls : List RunnerCall :=
  [.captureOne .draft (1, 256, 32) false, .alloc 2, .replay .draft (1, 256, 32) false]

/-- The draft runner replays a graph over buffers that were replaced. -/
theorem unchecked_replay_stale : ¬ ∀ event ∈
    (RunnersState.fresh ⟨2, 100000, [1], 0, 0, false, 0⟩).callAll ⟨[1], some 32, [], [], []⟩
      uncheckedCalls, event.Current := by
  decide +kernel

end SpecBlock.Serving
