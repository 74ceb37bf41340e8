import Mathlib.Data.List.Basic
import SpecBlock.Foundation.Rows

/-!
# The draft cache with a streaming window

The draft keeps a buffer of rows for each layer, one row for each slot of a position, and how many
of them are live. With streaming compaction only the first positions and the most recent ones keep
all their slots; of the positions between them the cache keeps slot zero. A row index in the cache
tells where the recent positions start.

After the prefill the prompt is compacted at once. In decoding, positions are appended with all
their slots, the last position may be taken back, and maintenance demotes what has become old. Both
compactions gather the rows to keep and write them back at the front of the buffer.

A row stands for its key and its value, which the source keeps in two buffers and moves alike.
-/

namespace SpecBlock.Draft
open Rows

/-- A layer's cache; a row that was not written holds nothing. -/
structure StreamLayer (α : Type) where
  buffer : Option (List (Option α))
  count : Nat
  maxLen : Nat
  farEndRow : Option Nat

/-- `torch.arange`. -/
def arange (start stop : Nat) : List Nat := List.range' start (stop - start)

namespace StreamLayer

variable {α : Type}

/-- A new cache of a layer. -/
def reset (maxCacheLen : Nat) : StreamLayer α := ⟨none, 0, maxCacheLen, none⟩

/-- The rows of the buffer. -/
def cells (layer : StreamLayer α) : List (Option α) := layer.buffer.getD []

/-- `_ensure_cache_buf`. The buffer at least doubles when it grows, and only the live rows are copied. -/
def ensureCacheBuf (layer : StreamLayer α) (needed : Nat) : StreamLayer α :=
  match layer.buffer with
  | none => { layer with buffer := some (List.replicate (max layer.maxLen needed) none) }
  | some cells =>
    if cells.length < needed then
      let newMax := max (cells.length * 2) needed
      { layer with
        buffer := some (cells.take layer.count ++ List.replicate (newMax - layer.count) none)
        maxLen := newMax }
    else layer

/-- Write rows behind the live ones. -/
def append (layer : StreamLayer α) (rows : List α) : StreamLayer α :=
  let grown := layer.ensureCacheBuf (layer.count + rows.length)
  { grown with
    buffer := some (grown.cells.take layer.count ++ rows.map some ++
      grown.cells.drop (layer.count + rows.length))
    count := layer.count + rows.length }

/-- `pop_cache`. A cache with less than a block is left as it is. -/
def popCache (K : Nat) (layer : StreamLayer α) : StreamLayer α :=
  if K ≤ layer.count then { layer with count := layer.count - K } else layer

/-- `index_select` along the rows. An index out of the buffer is an error. -/
def indexSelect (cells : List (Option α)) (keepIdx : List Nat) : Option (List (Option α)) :=
  keepIdx.mapM (fun row => cells[row]?)

/-- Gather rows and write them back at the front. -/
def keepRows (layer : StreamLayer α) (keepIdx : List Nat) : Option (StreamLayer α) := do
  let rows ← indexSelect layer.cells keepIdx
  return { layer with
    buffer := some (rows ++ layer.cells.drop keepIdx.length)
    count := keepIdx.length }

/-- `maybe_compact_near_to_far`. Of the positions that leave the near window the first slot is kept,
behind the other far ones. Rows out of the buffer are an error. -/
def maybeCompactNearToFar (K nearWin : Nat) (layer : StreamLayer α) : Option (StreamLayer α) :=
  if nearWin ≤ 0 then some layer
  else match layer.farEndRow with
    | none => some layer
    | some farEnd =>
      if layer.count ≤ farEnd then some layer
      else
        let nearPos := (layer.count - farEnd) / K
        if nearPos ≤ nearWin then some layer
        else
          let demoteN := nearPos - nearWin
          let demotedSlot0Idx := (List.range demoteN).map (fun position => farEnd + position * K)
          let keptNearStart := farEnd + demoteN * K
          (layer.keepRows (arange 0 farEnd ++ demotedSlot0Idx ++ arange keptNearStart layer.count)).map
            (fun kept => { kept with farEndRow := some (farEnd + demoteN) })

/-- `compact_prompt_cache`. The first positions and the last ones of the prompt keep all slots,
those between them their first; what stands behind the prompt is kept. -/
def compactPromptCache (K promptLen sinkPos nearWin : Nat) (layer : StreamLayer α) :
    Option (StreamLayer α) :=
  if promptLen ≤ sinkPos then some layer
  else
    let nearInPrompt := min nearWin (promptLen - sinkPos)
    let farPositions := promptLen - sinkPos - nearInPrompt
    if farPositions = 0 then some layer
    else if layer.count < promptLen * K then some layer
    else
      let farEndPos := sinkPos + farPositions
      let farIdx := (arange sinkPos farEndPos).map (· * K)
      (layer.keepRows (arange 0 (sinkPos * K) ++ farIdx ++ arange (farEndPos * K) (promptLen * K) ++
          arange (promptLen * K) layer.count)).map
        (fun kept => { kept with farEndRow := some (sinkPos * K + farPositions) })

end StreamLayer

/-- A position's rows, by layer and slot. -/
abbrev PositionRows (α : Type) := Nat → Nat → α

section

variable {α : Type}

/-- All slots of some positions in a layer. -/
def fullRows (K layer : Nat) (positions : List (PositionRows α)) : List α :=
  positions.flatMap (fun position => (List.range K).map (position layer))

/-- A forward over several positions appends all their slots to every layer. -/
def appendPositions (K : Nat) (cache : List (StreamLayer α)) (positions : List (PositionRows α)) :
    List (StreamLayer α) :=
  cache.mapIdx (fun layer stored => stored.append (fullRows K layer positions))

/-- What happens to the cache in decoding. -/
inductive StreamOp (α : Type)
  | append (positions : List (PositionRows α))
  | maintain
  | pop

/-- The cache after an operation. -/
def StreamOp.apply (K nearWin : Nat) (cache : List (StreamLayer α)) :
    StreamOp α → Option (List (StreamLayer α))
  | .append positions => some (appendPositions K cache positions)
  | .maintain => cache.mapM (StreamLayer.maybeCompactNearToFar K nearWin)
  | .pop => some (cache.map (StreamLayer.popCache K))

/-- A prefill in chunks with a new cache, the compaction of the prompt, and then some operations. -/
def streamRun (K sinkPos nearWin promptLen layers maxCacheLen : Nat)
    (chunks : List (List (PositionRows α))) (ops : List (StreamOp α)) :
    Option (List (StreamLayer α)) := do
  let prefilled := chunks.foldl (appendPositions K)
    (List.replicate layers (StreamLayer.reset maxCacheLen))
  let compacted ← prefilled.mapM (StreamLayer.compactPromptCache K promptLen sinkPos nearWin)
  ops.foldlM (fun cache op => op.apply K nearWin cache) compacted

end

end SpecBlock.Draft
