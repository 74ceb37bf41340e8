import SpecBlock.Serving.Ownership
import SpecBlock.Serving.ScheduleBatch

/-!
# Runs of the scheduler

A run starts with a new pool and no batch. Its steps prefill a batch of new
requests, decode a live batch for one round with any accepted chains, filter a batch,
merge two batches that have requests, or drop a batch that has none. Steps that raise
are not taken.

The draft states of the live batches follow the ownership runs, so the pool stays
whole with respect to them. Whether the batches still know the owners is another
question.
-/

namespace SpecBlock.Serving

open Rows

variable {T α : Type}

/-- A live batch, and how many of its leading requests have kept their place since its
draft state was built. -/
structure TrackedBatch (T : Type) where
  batch : ScheduleBatch T
  settled : Nat

/-- The pool, the live batches, and the draft state last computed for each request. -/
structure SchedulerState (T : Type) where
  pool : SpecBlockKVPool
  batches : List (TrackedBatch T)
  current : Nat → RequestDraft T

/-- Request identities of a batch, in order. -/
def ScheduleBatch.rids (batch : ScheduleBatch T) : List Nat := batch.reqs.map Req.rid

/-- Identities of all live requests. -/
def SchedulerState.rids (state : SchedulerState T) : List Nat :=
  state.batches.flatMap (fun tracked => tracked.batch.rids)

/-- A record of values by key, overwritten at the listed keys. -/
def assign (keys : List Nat) (values : List α) (record : Nat → α) (key : Nat) : α :=
  ((keys.zip values).lookup key).getD (record key)

/-- Leading positions that a selection leaves in place, among the first `settled`. -/
def keptInPlace (settled : Nat) (keep : List Nat) : Nat :=
  ((List.range settled).takeWhile (fun position => keep[position]? = some position)).length

/-- Slots a batch records for each request. -/
def ScheduleBatch.crossLoc (batch : ScheduleBatch T) : List (List Nat) :=
  match batch.specInfo with
  | some info => info.crossLoc
  | none => []

/-- Steps of the scheduler whose filters are permitted: a filter is given a batch and the
positions to keep. -/
inductive SchedulerStep [Zero T] (worker : SpecBlockWorker)
    (permitted : ScheduleBatch T → List Nat → Prop) :
    SchedulerState T → SchedulerState T → Prop
  | prefill (state : SchedulerState T) (final : SpecBlockKVPool)
      (prefillAndDraft : DraftPrefill T) (requests : List (PrefillRequest T))
      (batch : ScheduleBatch T)
      (new : ((requests.map (fun request => request.req.rid)) ++ state.rids).Nodup)
      (ran : prefillBatch prefillAndDraft requests state.pool = .ok batch final) :
      SchedulerStep worker permitted state {
        pool := final
        batches := ⟨batch, batch.reqs.length⟩ :: state.batches
        current := assign batch.rids
          (List.zipWith (PrefillRequest.draft prefillAndDraft) requests batch.crossLoc)
          state.current }
  | decode (state : SchedulerState T) (final : SpecBlockKVPool)
      (tracked : TrackedBatch T) (rest : List (TrackedBatch T))
      (live : state.batches.Perm (tracked :: rest))
      (static : Nat → Nat → List (DraftRow T))
      (emitDepths : List (DraftRow T) → List (List Nat)) (chains : List (AcceptedChain T))
      (each : chains.length = tracked.batch.reqs.length) (replay : Nat → RefreshReplay T)
      (batch : ScheduleBatch T)
      (ran : decodeBatch worker static emitDepths chains replay tracked.batch state.pool =
        .ok batch final) :
      SchedulerStep worker permitted state {
        pool := final
        batches := ⟨batch, batch.reqs.length⟩ :: rest
        current := assign batch.rids
          ((tracked.batch.reqs.zip chains).mapIdx (fun position entry =>
            let previous := state.current entry.1.rid
            let granted := (batch.crossLoc.getD position []).drop
              (previous.kept worker.K entry.2.acceptLength).length
            previous.refreshed worker.K entry.2 (replay position) granted))
          state.current }
  | filter (state : SchedulerState T) (final : SpecBlockKVPool)
      (tracked : TrackedBatch T) (rest : List (TrackedBatch T))
      (live : state.batches.Perm (tracked :: rest))
      (chunkedReqToExclude : List Nat) (keepIndices : Option (List Nat))
      (distinct : ∀ keep ∈ keepIndices, keep.Nodup)
      (allowed : permitted tracked.batch
        (keepIndices.getD (tracked.batch.unfinishedIndices chunkedReqToExclude)))
      (batch : ScheduleBatch T)
      (ran : tracked.batch.filterBatch chunkedReqToExclude keepIndices state.pool =
        .ok batch final) :
      SchedulerStep worker permitted state { state with
        pool := final
        batches := ⟨batch,
          if batch.reqs.length = tracked.batch.reqs.length then tracked.settled
          else keptInPlace tracked.settled
            (keepIndices.getD (tracked.batch.unfinishedIndices chunkedReqToExclude))⟩ :: rest }
  | merge (state : SchedulerState T) (running last : TrackedBatch T)
      (rest : List (TrackedBatch T)) (live : state.batches.Perm (running :: last :: rest))
      (runningRequests : running.batch.reqs ≠ []) (lastRequests : last.batch.reqs ≠ []) :
      SchedulerStep worker permitted state { state with
        batches := ⟨running.batch.mergeBatch last.batch, running.settled⟩ :: rest }
  | discard (state : SchedulerState T) (empty : TrackedBatch T)
      (rest : List (TrackedBatch T)) (live : state.batches.Perm (empty :: rest))
      (noRequests : empty.batch.reqs = []) :
      SchedulerStep worker permitted state { state with batches := rest }

/-- Runs of the scheduler from a new pool whose filters are permitted. -/
def schedulerSystem [Zero T] (worker : SpecBlockWorker)
    (permitted : ScheduleBatch T → List Nat → Prop) : System (SchedulerState T) where
  start := fun state => ∃ initialPoolSize maxPoolSize,
    SpecBlockKVPool.create initialPoolSize maxPoolSize = .ok state.pool ∧ state.batches = []
  step := SchedulerStep worker permitted

/-- Draft states of the live batches. -/
def TrackedBatch.infos (tracked : TrackedBatch T) : List (SpecInfo T) :=
  tracked.batch.specInfo.toList.map SpecInfo.draft

/-- The pool with the draft states of the live batches. -/
def SchedulerState.cross (state : SchedulerState T) : CrossState T :=
  ⟨state.pool, state.batches.flatMap TrackedBatch.infos⟩

/-- A new pool of twelve slots and no batch. -/
def smallStart : SchedulerState Nat where
  pool := ⟨12, 12, List.range' 1 11, 0, 0, false, 0⟩
  batches := []
  current := fun _ => ⟨0, 0, 0, [], 0, 0, [], [], 0, 0, 0, 0, 0⟩

/-- Two requests with a one-token prompt each. -/
def smallRequests : List (PrefillRequest Nat) :=
  [⟨⟨0, false⟩, 1, [3], [], 7, 5, rfl⟩, ⟨⟨1, false⟩, 1, [4], [], 8, 6, rfl⟩]

/-- The first request accepts a token and stops; the second accepts none. -/
def smallChains : List (AcceptedChain Nat) :=
  [⟨[6], 8, [1], 2, true, rfl⟩, ⟨[], 9, [], 3, false, rfl⟩]

end SpecBlock.Serving
