import SpecBlock.Foundation.Runs
import SpecBlock.Draft.TrainingMasks

/-!
# The draft's cross cache

At inference the draft keeps, for each layer, a buffer of keys of the first block and a
count of the live ones. The buffer is allocated at the first write and doubled when it is
too small, which copies the live keys. A forward over several positions appends all their
slots; a forward of a single position sees the live keys, the cached keys of its own
position under a mask, and its own slots up to the query's.

A run feeds positions, the last of which is being drafted, or takes that one back and
drafts it anew. The second block then drops the last position's slots from the live
keys and reads them from the cached ones. The options that compact the cache are off.
-/

namespace SpecBlock.Draft

/-- A layer's cache; a cell that was not written holds no key. -/
structure LayerCache where
  buffer : Option (List (Option DraftKey))
  count : Nat
  maxLen : Nat
  deriving DecidableEq, Repr

namespace LayerCache

/-- A new cache. -/
def reset (maxCacheLen : Nat) : LayerCache := ⟨none, 0, maxCacheLen⟩

/-- Allocate or grow the buffer. -/
def ensureCacheBuf (cache : LayerCache) (needed : Nat) : LayerCache :=
  match cache.buffer with
  | none => { cache with buffer := some (List.replicate (max cache.maxLen needed) none) }
  | some cells =>
    if cells.length < needed then
      let newMax := max (cells.length * 2) needed
      { cache with
        buffer := some (cells.take cache.count ++ List.replicate (newMax - cache.count) none)
        maxLen := newMax }
    else cache

/-- The cells of the buffer. -/
def cells (cache : LayerCache) : List (Option DraftKey) := cache.buffer.getD []

/-- The live keys. -/
def live (cache : LayerCache) : List (Option DraftKey) := cache.cells.take cache.count

/-- Write keys behind the live ones. -/
def append (cache : LayerCache) (keys : List DraftKey) : LayerCache :=
  let grown := cache.ensureCacheBuf (cache.count + keys.length)
  { grown with
    buffer := some (grown.cells.take cache.count ++ keys.map some ++
      grown.cells.drop (cache.count + keys.length))
    count := cache.count + keys.length }

/-- Drop the last position's slots. -/
def popCache (cache : LayerCache) (K : Nat) : LayerCache :=
  if K ≤ cache.count then { cache with count := cache.count - K } else cache

/-- Live keys without the last position's. -/
def effectiveCrossCount (cache : LayerCache) (K : Nat) : Nat :=
  if K ≤ cache.count then cache.count - K else 0

/-- Keys a slot sees in a forward of one position: the first cross keys, the cached keys the
mask lets through, and the current slots up to its own. -/
def threePartAttention (cross : List (Option DraftKey)) (crossCount : Nat)
    (tttCache : List (Option DraftKey)) (tttMask : List Bool) (current : List DraftKey)
    (slot : Nat) : List (Option DraftKey) :=
  cross.take crossCount ++ attended tttCache (fun index => tttMask.getD index false) ++
    attended (current.map some) (fun index => decide (index ≤ slot))

/-- Keys a query sees in a forward over several positions: the live ones, and the current
ones under the causal mask. -/
def treeAttention (cache : LayerCache) (K : Nat) (current : List DraftKey) (query : Nat) :
    List (Option DraftKey) :=
  attended (cache.live ++ current.map some) (fun index =>
    decide (index < cache.count) || crossPositionCausalMask K query (index - cache.count))

end LayerCache

/-- The draft between rounds: the layer's cache, how many positions were fed, the cached keys
of the last one, and what its slots saw in the first block. -/
structure DraftState where
  cache : LayerCache
  fed : Nat
  tttCache : List (Option DraftKey)
  seen : Nat → List (Option DraftKey)

namespace DraftState

/-- Feed positions in one forward; the last one is drafted. -/
def updateCacheAndDraft (K N : Nat) (state : DraftState) : DraftState :=
  let current := blockKeys 1 state.fed N K
  { cache := state.cache.append current
    fed := state.fed + N
    tttCache := (current.drop ((N - 1) * K)).map some
    seen := fun slot => state.cache.treeAttention K current ((N - 1) * K + slot) }

/-- Take the last position back and draft it anew. -/
def popAndDraft (K : Nat) (state : DraftState) : DraftState :=
  let popped := state.cache.popCache K
  let current := slotKeys 1 (state.fed - 1) K
  { cache := popped.append current
    fed := state.fed
    tttCache := current.map some
    seen := fun slot =>
      LayerCache.threePartAttention popped.live popped.count [] [] current slot }

/-- Keys a slot sees in the second block, of whose position `M` slots are valid. -/
def block2Seen (K M : Nat) (state : DraftState) (slot : Nat) : List (Option DraftKey) :=
  let effective := state.cache.effectiveCrossCount K
  let cross := if 0 < effective then state.cache.cells.take effective else []
  let tttMask := (List.range K).map (fun slot => decide (slot < M))
  LayerCache.threePartAttention cross effective state.tttCache tttMask
    (slotKeys 2 (state.fed - 1) K) slot

end DraftState

/-- Runs of the draft. -/
inductive DraftStep (K : Nat) : DraftState → DraftState → Prop
  | update (state : DraftState) (N : Nat) (some : 0 < N) :
      DraftStep K state (state.updateCacheAndDraft K N)
  | redraft (state : DraftState) (fed : 0 < state.fed) :
      DraftStep K state (state.popAndDraft K)

/-- Runs from a new cache. -/
def draftSystem (K : Nat) : System DraftState where
  start := fun state => ∃ maxCacheLen,
    state.cache = LayerCache.reset maxCacheLen ∧ state.fed = 0
  step := DraftStep K

end SpecBlock.Draft
