import SpecBlock.Foundation.Rows
import SpecBlock.Serving.KvPool

/-!
# Per-request draft state carried by a batch

A batch carries the draft state of its requests in parallel fields: tensors with
one row per request, which may be absent, and Python lists. `filter_batch` gathers
them and returns the cross slots of the dropped requests to the pool;
`merge_batch` appends those of another batch. Between drafting and the refresh the
lists travel in a verify input.

Rows of model tensors are opaque. Only the branches taken without future indices
are kept, which are those of the first scheduler path. `new_seq_lens` is neither
gathered nor appended.
-/

namespace SpecBlock.Serving

open Rows

variable {T α β : Type}

/-- Draft state of a batch between the refresh and the next draft. -/
structure SpecBlockDraftInput (T : Type) where
  hiddenStates : Option (List T)
  verifiedId : Option (List Nat)
  acceptLength : Option (List Nat)
  crossLoc : List (List Nat)
  crossCount : List Nat
  crossPosition : List Nat
  tttK : List (List T)
  tttV : List (List T)
  b0Logits : Option (List T)
  b0Hidden : Option (List T)
  b0InputId : Option (List Nat)
  b0RankLogits : Option (List T)
  b0TopIndices : Option (List T)
  newSeqLens : Option (List Nat)
  kvPool : Bool
  deriving DecidableEq, Repr

/-- Draft state of a batch between the draft and the refresh. -/
structure SpecBlockVerifyInput (T : Type) where
  positions : List (List Nat)
  hiddenStates : Option (List T)
  verifiedId : Option (List Nat)
  crossLoc : List (List Nat)
  crossCount : List Nat
  crossPosition : List Nat
  tttK : List (List T)
  tttV : List (List T)
  kvPool : Bool
  deriving DecidableEq, Repr

/-- Indexing by a list of rows raises when a row is out of range. -/
def index (keep : List Nat) (entries : List α) : PoolM (List α) :=
  if keep.all (· < entries.length) then return gather keep entries
  else throw ⟨"index out of range"⟩

/-- A tensor field that is present is indexed. -/
def indexTensor (keep : List Nat) : Option (List α) → PoolM (Option (List α))
  | none => return none
  | some entries => do return some (← index keep entries)

/-- A list field that is not empty is indexed. -/
def indexList (keep : List Nat) (entries : List α) : PoolM (List α) :=
  if entries = [] then return [] else index keep entries

/-- Two tensor fields one after the other; an absent one gives way. -/
def catTensor : Option (List α) → Option (List α) → Option (List α)
  | none, theirs => theirs
  | some mine, none => some mine
  | some mine, some theirs => some (mine ++ theirs)

/-- Return the slots of several requests. -/
def releaseEach : List (List Nat) → PoolM Unit
  | [] => return ()
  | loc :: rest => do
    SpecBlockKVPool.release loc
    releaseEach rest

/-- Entries at the positions that are not kept, in order. -/
def dropped (keep : List Nat) (entries : List α) : List α :=
  gather ((List.range entries.length).filter (· ∉ keep)) entries

namespace SpecBlockDraftInput

/-- Keep the given requests and return the slots of the others to the pool. -/
def filterBatch (newIndices : List Nat) (info : SpecBlockDraftInput T) :
    PoolM (SpecBlockDraftInput T) := do
  let hiddenStates ← indexTensor newIndices info.hiddenStates
  let verifiedId ← indexTensor newIndices info.verifiedId
  let acceptLength ← indexTensor newIndices info.acceptLength
  let b0Logits ← indexTensor newIndices info.b0Logits
  let b0Hidden ← indexTensor newIndices info.b0Hidden
  let b0InputId ← indexTensor newIndices info.b0InputId
  let b0RankLogits ← indexTensor newIndices info.b0RankLogits
  let b0TopIndices ← indexTensor newIndices info.b0TopIndices
  releaseEach (if info.kvPool then dropped newIndices info.crossLoc else [])
  let crossLoc ← indexList newIndices info.crossLoc
  let crossCount ← indexList newIndices info.crossCount
  let crossPosition ← indexList newIndices info.crossPosition
  let tttK ← indexList newIndices info.tttK
  let tttV ← indexList newIndices info.tttV
  return { info with
    hiddenStates, verifiedId, acceptLength, b0Logits, b0Hidden, b0InputId, b0RankLogits,
    b0TopIndices, crossLoc, crossCount, crossPosition, tttK, tttV }

/-- Append the requests of another batch. -/
def mergeBatch (info other : SpecBlockDraftInput T) : SpecBlockDraftInput T :=
  { info with
    hiddenStates := catTensor info.hiddenStates other.hiddenStates
    verifiedId := catTensor info.verifiedId other.verifiedId
    acceptLength := catTensor info.acceptLength other.acceptLength
    b0Logits := catTensor info.b0Logits other.b0Logits
    b0Hidden := catTensor info.b0Hidden other.b0Hidden
    b0InputId := catTensor info.b0InputId other.b0InputId
    b0RankLogits := catTensor info.b0RankLogits other.b0RankLogits
    b0TopIndices := catTensor info.b0TopIndices other.b0TopIndices
    kvPool := info.kvPool || other.kvPool
    crossLoc := info.crossLoc ++ other.crossLoc
    crossCount := info.crossCount ++ other.crossCount
    crossPosition := info.crossPosition ++ other.crossPosition
    tttK := info.tttK ++ other.tttK
    tttV := info.tttV ++ other.tttV }

/-- Return every live slot and forget the requests. -/
def releaseResources (info : SpecBlockDraftInput T) : PoolM (SpecBlockDraftInput T) := do
  releaseEach (if info.kvPool then info.crossLoc else [])
  return { info with crossLoc := [], crossCount := [], crossPosition := [], tttK := [], tttV := [] }

end SpecBlockDraftInput

/-- Indexing succeeds with the gathered entries and leaves the pool alone. -/
theorem index_ok {keep : List Nat} {entries kept : List α} {pool final : SpecBlockKVPool}
    (indexed : index keep entries pool = .ok kept final) :
    kept = gather keep entries ∧ (∀ row ∈ keep, row < entries.length) ∧ final = pool := by
  unfold index at indexed
  split at indexed
  next inside =>
    obtain ⟨rfl, rfl⟩ := PoolM.pure_ok.mp indexed
    exact ⟨rfl, by simpa using inside, rfl⟩
  next outside => exact (PoolM.throw_ok.mp indexed).elim

theorem indexTensor_ok {keep : List Nat} {entries kept : Option (List α)}
    {pool final : SpecBlockKVPool} (indexed : indexTensor keep entries pool = .ok kept final) :
    kept = entries.map (gather keep) ∧
      (∀ present ∈ entries, ∀ row ∈ keep, row < present.length) ∧ final = pool := by
  cases entries with
  | none =>
    obtain ⟨rfl, rfl⟩ := PoolM.pure_ok.mp indexed
    exact ⟨rfl, by simp, rfl⟩
  | some entries =>
    obtain ⟨rows, between, read, done⟩ := PoolM.bind_ok.mp indexed
    obtain ⟨rfl, rfl⟩ := PoolM.pure_ok.mp done
    obtain ⟨rfl, inside, rfl⟩ := index_ok read
    exact ⟨rfl, by simpa using inside, rfl⟩

/-- A list field is gathered and the pool left alone; an empty one stays empty. -/
theorem indexList_ok {keep : List Nat} {entries kept : List α} {pool final : SpecBlockKVPool}
    (indexed : indexList keep entries pool = .ok kept final) :
    kept = gather keep entries ∧ (entries ≠ [] → ∀ row ∈ keep, row < entries.length) ∧
      final = pool := by
  unfold indexList at indexed
  split at indexed
  next none =>
    obtain ⟨rfl, rfl⟩ := PoolM.pure_ok.mp indexed
    refine ⟨?_, by simp [none], rfl⟩
    simp [none, gather]
  next some =>
    obtain ⟨same, inside, unchanged⟩ := index_ok indexed
    exact ⟨same, fun _ => inside, unchanged⟩

/-- Draft state with every field but `new_seq_lens` gathered. -/
def SpecBlockDraftInput.gathered (keep : List Nat) (info : SpecBlockDraftInput T) :
    SpecBlockDraftInput T :=
  { info with
    hiddenStates := info.hiddenStates.map (gather keep)
    verifiedId := info.verifiedId.map (gather keep)
    acceptLength := info.acceptLength.map (gather keep)
    b0Logits := info.b0Logits.map (gather keep)
    b0Hidden := info.b0Hidden.map (gather keep)
    b0InputId := info.b0InputId.map (gather keep)
    b0RankLogits := info.b0RankLogits.map (gather keep)
    b0TopIndices := info.b0TopIndices.map (gather keep)
    crossLoc := gather keep info.crossLoc
    crossCount := gather keep info.crossCount
    crossPosition := gather keep info.crossPosition
    tttK := gather keep info.tttK
    tttV := gather keep info.tttV }

theorem indexTensor_bind {keep : List Nat} {entries : Option (List α)}
    {rest : Option (List α) → PoolM β} {result : β} {pool final : SpecBlockKVPool}
    (ran : (indexTensor keep entries >>= rest) pool = .ok result final) :
    rest (entries.map (gather keep)) pool = .ok result final := by
  obtain ⟨kept, between, read, following⟩ := PoolM.bind_ok.mp ran
  obtain ⟨rfl, -, rfl⟩ := indexTensor_ok read
  exact following

theorem indexList_bind {keep : List Nat} {entries : List α}
    {rest : List α → PoolM β} {result : β} {pool final : SpecBlockKVPool}
    (ran : (indexList keep entries >>= rest) pool = .ok result final) :
    rest (gather keep entries) pool = .ok result final ∧
      (entries ≠ [] → ∀ row ∈ keep, row < entries.length) := by
  obtain ⟨kept, between, read, following⟩ := PoolM.bind_ok.mp ran
  obtain ⟨rfl, inside, rfl⟩ := indexList_ok read
  exact ⟨following, inside⟩

/-- A filter that succeeds gathers the fields and returns the dropped slots. -/
theorem filterBatch_ok {keep : List Nat} {info result : SpecBlockDraftInput T}
    {pool final : SpecBlockKVPool} (ran : info.filterBatch keep pool = .ok result final) :
    result = info.gathered keep ∧
      releaseEach (if info.kvPool then dropped keep info.crossLoc else []) pool = .ok () final ∧
      (info.crossLoc ≠ [] → ∀ row ∈ keep, row < info.crossLoc.length) := by
  unfold SpecBlockDraftInput.filterBatch at ran
  -- The eight tensor fields are indexed first, without effect on the pool.
  replace ran := indexTensor_bind ran
  replace ran := indexTensor_bind ran
  replace ran := indexTensor_bind ran
  replace ran := indexTensor_bind ran
  replace ran := indexTensor_bind ran
  replace ran := indexTensor_bind ran
  replace ran := indexTensor_bind ran
  replace ran := indexTensor_bind ran
  obtain ⟨done, between, released, listed⟩ := PoolM.bind_ok.mp ran
  obtain ⟨listed, inside⟩ := indexList_bind listed
  replace listed := (indexList_bind listed).1
  replace listed := (indexList_bind listed).1
  replace listed := (indexList_bind listed).1
  replace listed := (indexList_bind listed).1
  obtain ⟨rfl, rfl⟩ := PoolM.pure_ok.mp listed
  exact ⟨rfl, released, inside⟩

/-- Returning the slots of several requests moves them all to the free list. -/
theorem releaseEach_ledger {locs : List (List Nat)} {pool final : SpecBlockKVPool}
    (real : 0 ∉ locs.flatten) (released : releaseEach locs pool = .ok () final) :
    Ledger pool.slots final.slots locs.flatten [] := by
  induction locs generalizing pool with
  | nil =>
    obtain ⟨-, rfl⟩ := PoolM.pure_ok.mp released
    exact Ledger.refl _ _
  | cons loc rest ih =>
    obtain ⟨done, between, first, others⟩ := PoolM.bind_ok.mp released
    have realFirst : 0 ∉ loc := fun member => real (by simp [member])
    have realRest : 0 ∉ rest.flatten := fun member => real (List.mem_append_right loc member)
    have entry := (SpecBlockKVPool.release_ledger realFirst first).frame rest.flatten
    exact entry.trans (ih realRest others)

theorem dropped_gather_perm {keep : List Nat} {entries : List α} (distinct : keep.Nodup)
    (inside : ∀ row ∈ keep, row < entries.length) :
    (dropped keep entries ++ gather keep entries).Perm entries := by
  have rows : ((List.range entries.length).filter (· ∉ keep) ++ keep).Perm
      (List.range entries.length) := by
    apply (List.perm_ext_iff_of_nodup _ List.nodup_range).mpr
    · intro row
      by_cases kept : row ∈ keep
      · simp [kept, inside row kept]
      · simp [kept]
    · refine List.nodup_append.mpr ⟨List.nodup_range.filter _, distinct, ?_⟩
      rintro row left _ right rfl
      simp [right] at left
  have all : gather (List.range entries.length) entries = entries := by
    apply List.ext_getElem?
    intro position
    rw [gather_getElem? _ _ (fun row member => List.mem_range.mp member)]
    by_cases reached : position < entries.length
    · simp [List.getElem?_range reached]
    · simp [Nat.le_of_not_lt reached]
  have gathered := rows.filterMap (fun row => entries[row]?)
  rw [List.filterMap_append] at gathered
  exact gathered.trans (List.Perm.of_eq all)

end SpecBlock.Serving
