import Mathlib.Data.List.Induction
import SpecBlock.Draft.StreamCache

/-!
# Compaction keeps the declared window

The window of a list of positions has all slots of the first positions, slot zero of every older
one, and all slots of the recent ones. Each operation on the cache takes a window to a window:
positions come and go at the end, the compaction of the prompt opens the window and maintenance
moves its near edge. Since every operation that takes a position back follows one that added some,
no operation reaches the rows before the near edge.
-/

namespace SpecBlock.Draft
open Rows

variable {α : Type}

/-! ## Gathered rows -/

theorem gather_arange (rows : List α) (start stop : Nat) (inside : stop ≤ rows.length) :
    gather (arange start stop) rows = (rows.drop start).take (stop - start) := by
  rw [gather, arange]
  generalize count : stop - start = pieces
  induction pieces generalizing start with
  | zero => simp
  | succ pieces ih =>
    have here : start < rows.length := by omega
    rw [List.range'_succ, List.filterMap_cons, List.getElem?_eq_getElem here,
      ih (start + 1) (by omega), List.drop_eq_getElem_cons here, List.take_succ_cons]

theorem gather_rest (rows : List α) (start : Nat) :
    gather (arange start rows.length) rows = rows.drop start := by
  rw [gather_arange rows start _ (Nat.le_refl _), List.take_of_length_le]
  rw [List.length_drop]

theorem arange_append {start middle stop : Nat} (first : start ≤ middle) (second : middle ≤ stop) :
    arange start middle ++ arange middle stop = arange start stop := by
  have meet : middle = start + 1 * (middle - start) := by omega
  have whole : stop - start = (middle - start) + (stop - middle) := by omega
  rw [arange, arange, arange, whole, List.range'_append_1.symm]
  rw [Nat.add_sub_cancel' first]

theorem gather_append (first second : List Nat) (rows : List α) :
    gather (first ++ second) rows = gather first rows ++ gather second rows := by
  simp [gather]

theorem mem_arange {start stop row : Nat} : row ∈ arange start stop ↔ start ≤ row ∧ row < stop := by
  rw [arange, List.mem_range'_1]
  omega

theorem arange_length (start stop : Nat) : (arange start stop).length = stop - start := by
  rw [arange, List.length_range']

section rows

variable (K layer : Nat)

theorem fullRows_cons (position : PositionRows α) (positions : List (PositionRows α)) :
    fullRows K layer (position :: positions) =
      (List.range K).map (position layer) ++ fullRows K layer positions := rfl

theorem fullRows_append (first second : List (PositionRows α)) :
    fullRows K layer (first ++ second) = fullRows K layer first ++ fullRows K layer second := by
  simp [fullRows]

@[simp] theorem fullRows_length (positions : List (PositionRows α)) :
    (fullRows K layer positions).length = positions.length * K := by
  induction positions with
  | nil => simp [fullRows]
  | cons position positions ih =>
    rw [fullRows_cons, List.length_append, ih, List.length_map, List.length_range,
      List.length_cons, Nat.succ_mul, Nat.add_comm]

theorem fullRows_drop (positions : List (PositionRows α)) (count : Nat) (inside : count ≤ positions.length) :
    (fullRows K layer positions).drop (count * K) = fullRows K layer (positions.drop count) := by
  conv => lhs; rw [← List.take_append_drop count positions, fullRows_append]
  rw [List.drop_left']
  rw [fullRows_length, List.length_take, Nat.min_eq_left inside]

theorem fullRows_take (positions : List (PositionRows α)) (count : Nat) (inside : count ≤ positions.length) :
    (fullRows K layer positions).take (count * K) = fullRows K layer (positions.take count) := by
  conv => lhs; rw [← List.take_append_drop count positions, fullRows_append]
  rw [List.take_left']
  rw [fullRows_length, List.length_take, Nat.min_eq_left inside]

/-- Every `K`-th row behind some others is the slot zero of a position. -/
theorem gather_slot0 (slot : 0 < K) (others : List α) (positions : List (PositionRows α))
    (behind : List α) (count : Nat) (inside : count ≤ positions.length) :
    gather ((List.range count).map (fun place => others.length + place * K))
        (others ++ fullRows K layer positions ++ behind) =
      (positions.take count).map (fun position => position layer 0) := by
  induction count generalizing others positions with
  | zero => simp
  | succ count ih =>
    cases positions with
    | nil => simp at inside
    | cons position positions =>
      have first : (others ++ fullRows K layer (position :: positions) ++ behind)[others.length + 0 * K]? =
          some (position layer 0) := by
        rw [Nat.zero_mul, Nat.add_zero, List.append_assoc, List.getElem?_append_right (Nat.le_refl _),
          Nat.sub_self, fullRows_cons, List.append_assoc, List.getElem?_append_left (by simpa using slot)]
        simp [slot]
      have shifted : ((List.range count).map Nat.succ).map (fun place => others.length + place * K) =
          (List.range count).map (fun place =>
            (others ++ (List.range K).map (position layer)).length + place * K) := by
        rw [List.map_map]
        apply List.map_congr_left
        intro place _
        simp only [Function.comp, List.length_append, List.length_map, List.length_range, Nat.succ_mul]
        omega
      have further := ih (others ++ (List.range K).map (position layer)) positions
        (by simpa using inside)
      rw [List.append_assoc others, ← fullRows_cons] at further
      rw [List.range_succ_eq_map, List.map_cons, gather_cons _ _ _ _ first, shifted, further,
        List.take_succ_cons, List.map_cons]

/-! ## Windows -/

/-- The rows of a window: all slots of the first positions, slot zero of the older ones, and all slots
of the recent ones. -/
def windowRows (sinkPos far : Nat) (positions : List (PositionRows α)) : List α :=
  fullRows K layer (positions.take sinkPos) ++
    ((positions.take far).drop sinkPos).map (fun position => position layer 0) ++
    fullRows K layer (positions.drop far)

variable {K layer} {sinkPos far : Nat} {positions : List (PositionRows α)}

theorem windowRows_far (sink : sinkPos ≤ far) (inside : far ≤ positions.length) :
    (fullRows K layer (positions.take sinkPos) ++
      ((positions.take far).drop sinkPos).map (fun position => position layer 0)).length =
        sinkPos * K + (far - sinkPos) := by
  rw [List.length_append, fullRows_length, List.length_map, List.length_drop, List.length_take,
    List.length_take, Nat.min_eq_left (by omega), Nat.min_eq_left inside]

theorem windowRows_length (sink : sinkPos ≤ far) (inside : far ≤ positions.length) :
    (windowRows K layer sinkPos far positions).length =
      sinkPos * K + (far - sinkPos) + (positions.length - far) * K := by
  rw [windowRows, List.length_append, windowRows_far sink inside, fullRows_length, List.length_drop]

theorem windowRows_append (sink : sinkPos ≤ far) (inside : far ≤ positions.length)
    (more : List (PositionRows α)) :
    windowRows K layer sinkPos far (positions ++ more) =
      windowRows K layer sinkPos far positions ++ fullRows K layer more := by
  rw [windowRows, windowRows, List.take_append_of_le_length (by omega), List.take_append_of_le_length inside,
    List.drop_append_of_le_length inside, fullRows_append, List.append_assoc, List.append_assoc,
    List.append_assoc]

/-- Moving the near edge keeps slot zero of the positions it passes. -/
theorem windowRows_demote (slot : 0 < K) (sink : sinkPos ≤ far) (inside : far ≤ positions.length)
    (demoted : Nat) (within : far + demoted ≤ positions.length) :
    gather (arange 0 (sinkPos * K + (far - sinkPos)) ++
        (List.range demoted).map (fun place => sinkPos * K + (far - sinkPos) + place * K) ++
        arange (sinkPos * K + (far - sinkPos) + demoted * K)
          (windowRows K layer sinkPos far positions).length)
      (windowRows K layer sinkPos far positions) =
        windowRows K layer sinkPos (far + demoted) positions := by
  generalize split : fullRows K layer (positions.take sinkPos) ++
    ((positions.take far).drop sinkPos).map (fun position => position layer 0) = older
  have olderRows : older.length = sinkPos * K + (far - sinkPos) := by
    rw [← split]
    exact windowRows_far sink inside
  have near : demoted ≤ (positions.drop far).length := by
    rw [List.length_drop]
    omega
  have rows : windowRows K layer sinkPos far positions = older ++ fullRows K layer (positions.drop far) := by
    rw [windowRows, split]
  have kept : gather (arange 0 older.length) (older ++ fullRows K layer (positions.drop far)) = older := by
    rw [gather_arange _ _ _ (by rw [List.length_append]; omega), List.drop_zero, Nat.sub_zero,
      List.take_left]
  have strided := gather_slot0 K layer slot older (positions.drop far) [] demoted near
  have recent : gather (arange (older.length + demoted * K)
      (older ++ fullRows K layer (positions.drop far)).length)
      (older ++ fullRows K layer (positions.drop far)) =
        fullRows K layer (positions.drop (far + demoted)) := by
    rw [gather_rest, ← List.drop_drop, List.drop_left, fullRows_drop K layer _ demoted near, List.drop_drop]
  have edge : (positions.take (far + demoted)).drop sinkPos =
      (positions.take far).drop sinkPos ++ (positions.drop far).take demoted := by
    rw [List.take_add, List.drop_append_of_le_length]
    rw [List.length_take, Nat.min_eq_left inside]
    exact sink
  rw [List.append_nil] at strided
  rw [rows, ← olderRows, gather_append, gather_append, kept, strided, recent, windowRows, edge,
    List.map_append, ← split]
  simp only [List.append_assoc]

/-- The compaction of a prompt keeps slot zero between the first and the last positions of it. -/
theorem windowRows_compact (slot : 0 < K) (promptLen : Nat) (sink : sinkPos ≤ far)
    (inPrompt : far ≤ promptLen) (inside : promptLen ≤ positions.length) :
    gather (arange 0 (sinkPos * K) ++ (arange sinkPos far).map (· * K) ++
        arange (far * K) (promptLen * K) ++ arange (promptLen * K) (positions.length * K))
      (fullRows K layer positions) = windowRows K layer sinkPos far positions := by
  have rows := fullRows_length K layer positions
  have promptRows : promptLen * K ≤ positions.length * K := Nat.mul_le_mul_right K inside
  have farRows : far * K ≤ promptLen * K := Nat.mul_le_mul_right K inPrompt
  have sinkRows : sinkPos * K ≤ far * K := Nat.mul_le_mul_right K sink
  have head := fullRows_length K layer (positions.take sinkPos)
  rw [List.length_take, Nat.min_eq_left (by omega)] at head
  have split : fullRows K layer positions =
      fullRows K layer (positions.take sinkPos) ++ fullRows K layer (positions.drop sinkPos) ++ [] := by
    rw [List.append_nil, ← fullRows_append, List.take_append_drop]
  have strided := gather_slot0 K layer slot (fullRows K layer (positions.take sinkPos))
    (positions.drop sinkPos) [] (far - sinkPos) (by rw [List.length_drop]; omega)
  have indices : (arange sinkPos far).map (· * K) =
      (List.range (far - sinkPos)).map (fun place => sinkPos * K + place * K) := by
    rw [arange, List.range'_eq_map_range, List.map_map]
    apply List.map_congr_left
    intro place _
    simp only [Function.comp, Nat.add_mul]
  have first : gather (arange 0 (sinkPos * K)) (fullRows K layer positions) =
      fullRows K layer (positions.take sinkPos) := by
    rw [gather_arange _ _ _ (by omega), List.drop_zero, Nat.sub_zero, fullRows_take K layer _ _ (by omega)]
  have recent : gather (arange (far * K) (positions.length * K)) (fullRows K layer positions) =
      fullRows K layer (positions.drop far) := by
    rw [← rows, gather_rest, fullRows_drop K layer _ _ (by omega)]
  have older : (positions.drop sinkPos).take (far - sinkPos) = (positions.take far).drop sinkPos := by
    rw [List.drop_take]
  rw [head, ← split, ← indices, older] at strided
  rw [List.append_assoc, arange_append farRows promptRows, gather_append, gather_append, first, strided,
    recent, windowRows]

end rows

/-! ## A layer -/

namespace StreamLayer

/-- A layer holds the rows that are live in its buffer. -/
structure Holds (layer : StreamLayer α) (rows : List α) : Prop where
  counted : layer.count = rows.length
  live : layer.cells.take layer.count = rows.map some

variable {layer : StreamLayer α} {rows : List α}

theorem Holds.fits (holds : layer.Holds rows) : rows.length ≤ layer.cells.length := by
  have sized := congrArg List.length holds.live
  rw [List.length_take, List.length_map, holds.counted] at sized
  omega

theorem Holds.read (holds : layer.Holds rows) (row : Nat) (inside : row < rows.length) :
    layer.cells[row]? = some (some rows[row]) := by
  have taken : (layer.cells.take layer.count)[row]? = (rows.map some)[row]? := by rw [holds.live]
  rw [List.getElem?_take, if_pos (by rw [holds.counted]; exact inside)] at taken
  rw [taken, List.getElem?_map, List.getElem?_eq_getElem inside]
  rfl

theorem holds_reset (maxCacheLen : Nat) : (reset maxCacheLen : StreamLayer α).Holds [] :=
  ⟨rfl, rfl⟩

theorem Holds.ensureCacheBuf (holds : layer.Holds rows) (needed : Nat) :
    needed ≤ (layer.ensureCacheBuf needed).cells.length ∧
      (layer.ensureCacheBuf needed).cells.take layer.count = layer.cells.take layer.count ∧
      (layer.ensureCacheBuf needed).farEndRow = layer.farEndRow := by
  have fits := holds.fits
  have counted := holds.counted
  cases stored : layer.buffer with
  | none =>
    have noRows : layer.count = 0 := by
      simp [cells, stored] at fits
      simp [counted, fits]
    refine ⟨?_, ?_⟩
    · rw [StreamLayer.ensureCacheBuf, stored]
      exact Nat.le_trans (Nat.le_max_right layer.maxLen needed) (Nat.le_of_eq (List.length_replicate ..).symm)
    · simp [StreamLayer.ensureCacheBuf, stored, cells, noRows]
  | some cells =>
    have inside : layer.count ≤ cells.length := by
      rw [StreamLayer.cells, stored] at fits
      rw [counted]
      exact fits
    by_cases small : cells.length < needed
    · simp only [StreamLayer.ensureCacheBuf, stored, small, if_true, StreamLayer.cells, Option.getD_some]
      refine ⟨?_, ?_, trivial⟩
      · rw [List.length_append, List.length_take, List.length_replicate, Nat.min_eq_left inside]
        omega
      · rw [List.take_left']
        rw [List.length_take, Nat.min_eq_left inside]
    · simp only [StreamLayer.ensureCacheBuf, stored, small, if_false, StreamLayer.cells, Option.getD_some]
      exact ⟨by omega, trivial, trivial⟩

theorem Holds.append (holds : layer.Holds rows) (more : List α) :
    (layer.append more).Holds (rows ++ more) ∧ (layer.append more).farEndRow = layer.farEndRow := by
  obtain ⟨room, kept, far⟩ := holds.ensureCacheBuf (layer.count + more.length)
  have taken : ((layer.ensureCacheBuf (layer.count + more.length)).cells.take layer.count).length =
      layer.count := by
    rw [List.length_take, Nat.min_eq_left (by omega)]
  refine ⟨⟨?_, ?_⟩, far⟩
  · simp only [StreamLayer.append, List.length_append, holds.counted]
  · have written : (layer.append more).cells =
        (layer.ensureCacheBuf (layer.count + more.length)).cells.take layer.count ++ more.map some ++
          (layer.ensureCacheBuf (layer.count + more.length)).cells.drop (layer.count + more.length) := rfl
    show (layer.append more).cells.take (layer.count + more.length) = _
    rw [written, List.take_left' (by rw [List.length_append, taken, List.length_map]), kept, holds.live,
      List.map_append]

theorem Holds.popCache {K : Nat} {last : List α} (holds : layer.Holds (rows ++ last))
    (slots : last.length = K) :
    (layer.popCache K).Holds rows ∧ (layer.popCache K).farEndRow = layer.farEndRow := by
  have counted := holds.counted
  rw [List.length_append] at counted
  have enough : K ≤ layer.count := by omega
  rw [StreamLayer.popCache, if_pos enough]
  have live := holds.live
  refine ⟨⟨?_, ?_⟩, rfl⟩
  · show layer.count - K = rows.length
    omega
  · have shorter : layer.count - K = rows.length := by omega
    have fewer : (layer.cells.take layer.count).take rows.length = layer.cells.take rows.length := by
      rw [List.take_take, Nat.min_eq_left (by omega)]
    show layer.cells.take (layer.count - K) = _
    rw [shorter, ← fewer, live, List.map_append, List.take_left' (List.length_map ..)]

theorem indexSelect_live (holds : layer.Holds rows) (keepIdx : List Nat)
    (inside : ∀ row ∈ keepIdx, row < rows.length) :
    indexSelect layer.cells keepIdx = some ((gather keepIdx rows).map some) := by
  induction keepIdx with
  | nil => rfl
  | cons row keepIdx ih =>
    have here := inside row List.mem_cons_self
    rw [indexSelect, List.mapM_cons, holds.read row here,
      gather_cons row keepIdx rows rows[row] (List.getElem?_eq_getElem here)]
    have rest := ih (fun other member => inside other (List.mem_cons_of_mem _ member))
    rw [indexSelect] at rest
    rw [rest]
    rfl

theorem Holds.keepRows (holds : layer.Holds rows) (keepIdx : List Nat)
    (inside : ∀ row ∈ keepIdx, row < rows.length) :
    ∃ kept, layer.keepRows keepIdx = some kept ∧ kept.Holds (gather keepIdx rows) := by
  have sized : (gather keepIdx rows).length = keepIdx.length := gather_length keepIdx rows inside
  refine ⟨_, by rw [StreamLayer.keepRows, indexSelect_live holds keepIdx inside]; rfl, ?_⟩
  refine ⟨sized.symm, ?_⟩
  simp only [cells, Option.getD_some]
  rw [List.take_left' (by rw [List.length_map, sized])]

end StreamLayer

/-! ## All layers -/

/-- Every layer of the cache holds the window of the same positions, with the same near edge. -/
structure CacheWindow (K sinkPos layers : Nat) (cache : List (StreamLayer α)) (far : Nat)
    (positions : List (PositionRows α)) : Prop where
  layers : cache.length = layers
  rows : ∀ (layer : Nat) (stored : StreamLayer α), cache[layer]? = some stored →
    stored.Holds (windowRows K layer sinkPos far positions) ∧
      stored.farEndRow = some (sinkPos * K + (far - sinkPos))
  sink : sinkPos ≤ far
  inside : far ≤ positions.length

theorem mapM_layers {β γ : Type} (step : β → Option γ) (good : Nat → γ → Prop) (cache : List β)
    (each : ∀ layer stored, cache[layer]? = some stored → ∃ next, step stored = some next ∧ good layer next) :
    ∃ following, cache.mapM step = some following ∧ following.length = cache.length ∧
      ∀ layer next, following[layer]? = some next → good layer next := by
  induction cache generalizing good with
  | nil => exact ⟨[], rfl, rfl, by simp⟩
  | cons stored cache ih =>
    obtain ⟨next, stepped, nextGood⟩ := each 0 stored rfl
    obtain ⟨following, rest, sized, followingGood⟩ := ih (fun layer => good (layer + 1))
      (fun layer other read => each (layer + 1) other read)
    refine ⟨next :: following, ?_, by simp [sized], ?_⟩
    · simp [List.mapM_cons, stepped, rest]
    · intro layer other read
      cases layer with
      | zero =>
        obtain rfl : next = other := Option.some.inj read
        exact nextGood
      | succ layer => exact followingGood layer other read

section cache

variable {K sinkPos layers far nearWin : Nat} {cache : List (StreamLayer α)}
  {positions : List (PositionRows α)}

theorem CacheWindow.append (window : CacheWindow K sinkPos layers cache far positions)
    (more : List (PositionRows α)) :
    CacheWindow K sinkPos layers (appendPositions K cache more) far (positions ++ more) := by
  refine ⟨?_, ?_, window.sink, ?_⟩
  · rw [appendPositions, List.length_mapIdx, window.layers]
  · intro layer stored read
    rw [appendPositions, List.getElem?_mapIdx] at read
    obtain ⟨before, readBefore, rfl⟩ := Option.map_eq_some_iff.mp read
    obtain ⟨holds, edge⟩ := window.rows layer before readBefore
    obtain ⟨appended, far⟩ := holds.append (fullRows K layer more)
    rw [windowRows_append window.sink window.inside]
    exact ⟨appended, far.trans edge⟩
  · have inside := window.inside
    rw [List.length_append]
    omega

theorem CacheWindow.pop (window : CacheWindow K sinkPos layers cache far positions)
    (recent : far < positions.length) :
    CacheWindow K sinkPos layers (cache.map (StreamLayer.popCache K)) far positions.dropLast := by
  have shorter : positions.dropLast.length = positions.length - 1 := List.length_dropLast
  have nonempty : positions ≠ [] := by
    intro empty
    simp [empty] at recent
  refine ⟨by rw [List.length_map, window.layers], ?_, window.sink, by omega⟩
  intro layer stored read
  rw [List.getElem?_map] at read
  obtain ⟨before, readBefore, rfl⟩ := Option.map_eq_some_iff.mp read
  obtain ⟨holds, edge⟩ := window.rows layer before readBefore
  have split := List.dropLast_append_getLast nonempty
  rw [← split, windowRows_append window.sink (by omega)] at holds
  obtain ⟨popped, far⟩ := holds.popCache (show _ = K by simp)
  exact ⟨popped, far.trans edge⟩

theorem maintain_layer (slot : 0 < K) (wide : 0 < nearWin) (sink : sinkPos ≤ far)
    (inside : far ≤ positions.length) {layer : Nat} {stored : StreamLayer α}
    (holds : stored.Holds (windowRows K layer sinkPos far positions))
    (edge : stored.farEndRow = some (sinkPos * K + (far - sinkPos))) :
    ∃ kept, stored.maybeCompactNearToFar K nearWin = some kept ∧
      kept.Holds (windowRows K layer sinkPos (max far (positions.length - nearWin)) positions) ∧
      kept.farEndRow = some (sinkPos * K + (max far (positions.length - nearWin) - sinkPos)) := by
  have counted : stored.count = sinkPos * K + (far - sinkPos) + (positions.length - far) * K := by
    rw [holds.counted, windowRows_length sink inside]
  have whole : (stored.count - (sinkPos * K + (far - sinkPos))) / K = positions.length - far := by
    rw [counted, Nat.add_sub_cancel_left, Nat.mul_div_cancel _ slot]
  rw [StreamLayer.maybeCompactNearToFar, if_neg (by omega), edge]
  simp only [whole]
  by_cases narrow : positions.length - far ≤ nearWin
  · have same : max far (positions.length - nearWin) = far := by omega
    rw [same, if_pos narrow, ite_self]
    exact ⟨stored, rfl, holds, edge⟩
  · have rowsBehind : 0 < (positions.length - far) * K := Nat.mul_pos (by omega) slot
    rw [if_neg (by omega), if_neg narrow]
    have moved : max far (positions.length - nearWin) = far + (positions.length - far - nearWin) := by omega
    have demotedRows : (positions.length - far - nearWin) * K ≤ (positions.length - far) * K :=
      Nat.mul_le_mul_right K (Nat.sub_le _ _)
    obtain ⟨kept, gathered, keptHolds⟩ := holds.keepRows
      (arange 0 (sinkPos * K + (far - sinkPos)) ++
        (List.range (positions.length - far - nearWin)).map (fun place =>
          sinkPos * K + (far - sinkPos) + place * K) ++
        arange (sinkPos * K + (far - sinkPos) + (positions.length - far - nearWin) * K) stored.count) (by
      intro row member
      rw [← holds.counted]
      rcases List.mem_append.mp member with earlier | behind
      · rcases List.mem_append.mp earlier with old | demoted
        · have bound := (mem_arange.mp old).2
          omega
        · obtain ⟨place, listed, rfl⟩ := List.mem_map.mp demoted
          have before : (place + 1) * K ≤ (positions.length - far - nearWin) * K :=
            Nat.mul_le_mul_right K (List.mem_range.mp listed)
          rw [Nat.succ_mul] at before
          omega
      · exact (mem_arange.mp behind).2)
    rw [holds.counted, windowRows_demote slot sink inside _ (by omega), ← moved] at keptHolds
    rw [gathered]
    refine ⟨_, rfl, ⟨keptHolds.counted, keptHolds.live⟩, ?_⟩
    show some _ = some _
    rw [moved]
    congr 1
    omega

/-- Maintenance moves the near edge until no more positions than declared are recent. -/
theorem CacheWindow.maintain (window : CacheWindow K sinkPos layers cache far positions) (slot : 0 < K)
    (wide : 0 < nearWin) :
    ∃ kept, cache.mapM (StreamLayer.maybeCompactNearToFar K nearWin) = some kept ∧
      CacheWindow K sinkPos layers kept (max far (positions.length - nearWin)) positions := by
  obtain ⟨kept, stepped, sized, rows⟩ := mapM_layers (StreamLayer.maybeCompactNearToFar K nearWin)
    (fun layer kept =>
      kept.Holds (windowRows K layer sinkPos (max far (positions.length - nearWin)) positions) ∧
        kept.farEndRow = some (sinkPos * K + (max far (positions.length - nearWin) - sinkPos))) cache
    (fun layer stored read => by
      obtain ⟨holds, edge⟩ := window.rows layer stored read
      exact maintain_layer slot wide window.sink window.inside holds edge)
  have inside := window.inside
  have sink := window.sink
  exact ⟨kept, stepped, sized.trans window.layers, rows, by omega, by omega⟩

/-- A prefill stores all slots of its positions in every layer. -/
theorem prefill_rows (layers maxCacheLen : Nat) (chunks : List (List (PositionRows α))) :
    (chunks.foldl (appendPositions K) (List.replicate layers (StreamLayer.reset maxCacheLen))).length =
        layers ∧
      ∀ (layer : Nat) (stored : StreamLayer α), (chunks.foldl (appendPositions K)
          (List.replicate layers (StreamLayer.reset maxCacheLen)))[layer]? = some stored →
        stored.Holds (fullRows K layer chunks.flatten) := by
  induction chunks using List.reverseRecOn with
  | nil =>
    refine ⟨List.length_replicate, ?_⟩
    intro layer stored read
    obtain rfl := List.eq_of_mem_replicate (List.mem_of_getElem? read)
    exact StreamLayer.holds_reset maxCacheLen
  | append_singleton chunks chunk ih =>
    rw [List.foldl_append, List.foldl_cons, List.foldl_nil, List.flatten_append]
    obtain ⟨sized, rows⟩ := ih
    refine ⟨by rw [appendPositions, List.length_mapIdx, sized], ?_⟩
    intro layer stored read
    rw [appendPositions, List.getElem?_mapIdx] at read
    obtain ⟨before, readBefore, rfl⟩ := Option.map_eq_some_iff.mp read
    rw [fullRows_append, List.flatten_singleton]
    exact ((rows layer before readBefore).append (fullRows K layer chunk)).1

theorem compact_layer (slot : 0 < K) {promptLen layer : Nat} (active : sinkPos + nearWin < promptLen)
    (inside : promptLen ≤ positions.length) {stored : StreamLayer α}
    (holds : stored.Holds (fullRows K layer positions)) :
    ∃ kept, stored.compactPromptCache K promptLen sinkPos nearWin = some kept ∧
      kept.Holds (windowRows K layer sinkPos (promptLen - nearWin) positions) ∧
      kept.farEndRow = some (sinkPos * K + (promptLen - nearWin - sinkPos)) := by
  have counted : stored.count = positions.length * K := by rw [holds.counted, fullRows_length]
  have promptRows : promptLen * K ≤ positions.length * K := Nat.mul_le_mul_right K inside
  have near : min nearWin (promptLen - sinkPos) = nearWin := by omega
  have edge : sinkPos + (promptLen - sinkPos - nearWin) = promptLen - nearWin := by omega
  have farRows : (promptLen - nearWin) * K ≤ promptLen * K := Nat.mul_le_mul_right K (Nat.sub_le _ _)
  have sinkRows : sinkPos * K ≤ (promptLen - nearWin) * K := Nat.mul_le_mul_right K (by omega)
  rw [StreamLayer.compactPromptCache, if_neg (by omega)]
  simp only [near, edge]
  rw [if_neg (by omega), if_neg (by omega), counted]
  obtain ⟨kept, gathered, keptHolds⟩ := holds.keepRows
    (arange 0 (sinkPos * K) ++ (arange sinkPos (promptLen - nearWin)).map (· * K) ++
      arange ((promptLen - nearWin) * K) (promptLen * K) ++
      arange (promptLen * K) (positions.length * K)) (by
    intro row member
    rw [fullRows_length]
    rcases List.mem_append.mp member with inPrompt | tail
    · rcases List.mem_append.mp inPrompt with older | recent
      · rcases List.mem_append.mp older with first | single
        · have bound := (mem_arange.mp first).2
          omega
        · obtain ⟨position, listed, rfl⟩ := List.mem_map.mp single
          have before : (position + 1) * K ≤ (promptLen - nearWin) * K :=
            Nat.mul_le_mul_right K (mem_arange.mp listed).2
          rw [Nat.succ_mul] at before
          show position * K < positions.length * K
          omega
      · have bound := (mem_arange.mp recent).2
        omega
    · exact (mem_arange.mp tail).2)
  rw [windowRows_compact slot promptLen (by omega) (by omega) inside] at keptHolds
  rw [gathered]
  refine ⟨_, rfl, ⟨keptHolds.counted, keptHolds.live⟩, ?_⟩
  show some _ = some _
  congr 1
  omega

end cache

/-! ## Runs -/

/-- The positions that are live after some operations. -/
def livePositions (positions : List (PositionRows α)) (ops : List (StreamOp α)) : List (PositionRows α) :=
  ops.foldl (fun live op => match op with
    | .append more => live ++ more
    | .maintain => live
    | .pop => live.dropLast) positions

/-- Whether a position was taken back and none appended since. -/
def StreamOp.popped (before : Bool) : StreamOp α → Bool
  | .append _ => false
  | .maintain => before
  | .pop => true

/-- Operations as decoding makes them: an append adds some positions, and only what an append added
since the last pop is popped, with or without maintenance in between. -/
def Decoding : Bool → List (StreamOp α) → Prop
  | _, [] => True
  | before, op :: ops => (match op with
      | .append more => more ≠ []
      | .maintain => True
      | .pop => before = false) ∧ Decoding (op.popped before) ops

/-- The recent positions are as many as declared, but for one that was taken back. -/
def KeepsNear (nearWin : Nat) (popped : Bool) (far live : Nat) : Prop :=
  nearWin ≤ live - far + popped.toNat

/-- The window after some operations. -/
structure StreamInvariant (K sinkPos nearWin layers : Nat) (popped : Bool) (cache : List (StreamLayer α))
    (far : Nat) (positions : List (PositionRows α)) : Prop where
  window : CacheWindow K sinkPos layers cache far positions
  near : KeepsNear nearWin popped far positions.length

section run

variable {K sinkPos nearWin layers far : Nat} {popped : Bool} {cache : List (StreamLayer α)}
  {positions : List (PositionRows α)}

/-- Every operation of decoding succeeds and keeps the window. -/
theorem StreamInvariant.step (slot : 0 < K) (wide : 0 < nearWin)
    (invariant : StreamInvariant K sinkPos nearWin layers popped cache far positions) (op : StreamOp α)
    (ops : List (StreamOp α)) (decoding : Decoding popped (op :: ops)) :
    ∃ following edge, op.apply K nearWin cache = some following ∧
      StreamInvariant K sinkPos nearWin layers (op.popped popped) following edge
        (livePositions positions [op]) ∧
      (op = .maintain → (livePositions positions [op]).length - edge ≤ nearWin) := by
  obtain ⟨window, near⟩ := invariant
  have inside := window.inside
  unfold KeepsNear at near
  cases op with
  | append more =>
    have grows : more ≠ [] := decoding.1
    have longer := List.length_pos_iff.mpr grows
    have one := Bool.toNat_le popped
    refine ⟨_, far, rfl, ⟨window.append more, ?_⟩, by simp⟩
    show nearWin ≤ (positions ++ more).length - far + 0
    rw [List.length_append]
    omega
  | maintain =>
    obtain ⟨kept, stepped, moved⟩ := window.maintain slot wide
    refine ⟨kept, _, stepped, ⟨moved, ?_⟩, ?_⟩
    · show nearWin ≤ positions.length - max far (positions.length - nearWin) + popped.toNat
      omega
    · intro _
      show positions.length - max far (positions.length - nearWin) ≤ nearWin
      omega
  | pop =>
    have fresh : popped = false := decoding.1
    subst fresh
    have recent : far < positions.length := by
      simp only [Bool.toNat_false] at near
      omega
    refine ⟨_, far, rfl, ⟨window.pop recent, ?_⟩, by simp⟩
    show nearWin ≤ positions.dropLast.length - far + 1
    simp only [Bool.toNat_false] at near
    rw [List.length_dropLast]
    omega

theorem StreamInvariant.run (slot : 0 < K) (wide : 0 < nearWin)
    (invariant : StreamInvariant K sinkPos nearWin layers popped cache far positions)
    (ops : List (StreamOp α)) (decoding : Decoding popped ops) :
    ∃ final edge, ops.foldlM (fun cache op => op.apply K nearWin cache) cache = some final ∧
      StreamInvariant K sinkPos nearWin layers (ops.foldl StreamOp.popped popped) final edge
        (livePositions positions ops) ∧
      (∀ earlier, ops = earlier ++ [.maintain] →
        (livePositions positions ops).length - edge ≤ nearWin) := by
  induction ops generalizing popped cache far positions with
  | nil =>
    refine ⟨cache, far, rfl, invariant, ?_⟩
    intro earlier last
    exact absurd last (by simp)
  | cons op ops ih =>
    obtain ⟨following, edge, applied, kept, maintained⟩ := invariant.step slot wide op ops decoding
    obtain ⟨final, finalEdge, ran, holds, lastMaintained⟩ := ih kept decoding.2
    cases ops with
    | nil =>
      obtain rfl : following = final := Option.some.inj ran
      refine ⟨following, edge, by simp [applied], kept, ?_⟩
      intro earlier last
      have isLast : op = .maintain := by
        have read := congrArg List.getLast? last
        simpa using read
      exact maintained isLast
    | cons next rest =>
      refine ⟨final, finalEdge, ?_, holds, ?_⟩
      · rw [List.foldlM_cons, applied]
        exact ran
      · intro earlier last
        cases earlier with
        | nil => simp at last
        | cons first earlier => exact lastMaintained earlier (List.cons.inj last).2

/-- The compaction of a prefilled prompt opens the window in every layer. -/
theorem prefill_invariant (layers maxCacheLen : Nat) (slot : 0 < K) {promptLen : Nat}
    (active : sinkPos + nearWin < promptLen) (chunks : List (List (PositionRows α)))
    (inside : promptLen ≤ chunks.flatten.length) :
    ∃ compacted, (chunks.foldl (appendPositions K)
        (List.replicate layers (StreamLayer.reset maxCacheLen))).mapM
          (StreamLayer.compactPromptCache K promptLen sinkPos nearWin) = some compacted ∧
      StreamInvariant K sinkPos nearWin layers false compacted (promptLen - nearWin) chunks.flatten := by
  obtain ⟨prefilled, rows⟩ := prefill_rows (K := K) layers maxCacheLen chunks
  obtain ⟨compacted, stepped, sized, windows⟩ := mapM_layers
    (StreamLayer.compactPromptCache K promptLen sinkPos nearWin)
    (fun layer kept =>
      kept.Holds (windowRows K layer sinkPos (promptLen - nearWin) chunks.flatten) ∧
        kept.farEndRow = some (sinkPos * K + (promptLen - nearWin - sinkPos)))
    (chunks.foldl (appendPositions K) (List.replicate layers (StreamLayer.reset maxCacheLen)))
    (fun layer stored read => compact_layer slot active inside (rows layer stored read))
  refine ⟨compacted, stepped, ⟨sized.trans prefilled, windows, by omega, by omega⟩, ?_⟩
  show nearWin ≤ chunks.flatten.length - (promptLen - nearWin) + 0
  omega

/-- Streaming compaction keeps the declared window. A prefill, the compaction of its prompt and any
operations of decoding succeed, and leave in every layer all slots of the first positions, slot zero
of every older one and all slots of the recent ones, with the near edge in the same place. Right after
maintenance no more positions than declared are recent, and as many unless the last one was taken
back. -/
theorem stream_window_kept (K sinkPos nearWin promptLen layers maxCacheLen : Nat)
    (chunks : List (List (PositionRows α))) (ops : List (StreamOp α)) (slot : 0 < K)
    (wide : 1 ≤ nearWin) (active : sinkPos + nearWin < promptLen)
    (inside : promptLen ≤ chunks.flatten.length) (decoding : Decoding false ops) :
    ∃ cache far, streamRun K sinkPos nearWin promptLen layers maxCacheLen chunks ops = some cache ∧
      CacheWindow K sinkPos layers cache far (livePositions chunks.flatten ops) ∧
      ∀ earlier, ops = earlier ++ [.maintain] →
        (livePositions chunks.flatten ops).length - far ≤ nearWin ∧
        (earlier.foldl StreamOp.popped false = false →
          (livePositions chunks.flatten ops).length - far = nearWin) := by
  obtain ⟨compacted, stepped, opened⟩ :=
    prefill_invariant layers maxCacheLen slot active chunks inside
  obtain ⟨final, edge, ran, invariant, maintained⟩ := opened.run slot wide ops decoding
  refine ⟨final, edge, ?_, invariant.window, ?_⟩
  · rw [streamRun, stepped]
    exact ran
  · intro earlier last
    have narrow := maintained earlier last
    refine ⟨narrow, ?_⟩
    intro notPopped
    have near := invariant.near
    have same : ops.foldl StreamOp.popped false = false := by
      rw [last, List.foldl_append]
      exact notPopped
    rw [same] at near
    unfold KeepsNear at near
    simp only [Bool.toNat_false] at near
    omega

end run

/-- A position whose rows carry its number and their slot. -/
def numberedPosition (position : Nat) : PositionRows (Nat × Nat) := fun _ slot => (position, slot)

/-- Two positions are appended to a prompt of three, one is taken back, and another is appended. -/
def shortDecoding : List (StreamOp (Nat × Nat)) :=
  [.append [numberedPosition 3, numberedPosition 4], .maintain, .pop, .append [numberedPosition 5],
    .maintain]

/-- The window of that run has one full position at either end. -/
theorem stream_window_kept_short : ∃ cache far,
    streamRun 2 1 1 3 2 4 [[numberedPosition 0, numberedPosition 1], [numberedPosition 2]] shortDecoding =
        some cache ∧
      CacheWindow 2 1 2 cache far (livePositions [numberedPosition 0, numberedPosition 1,
        numberedPosition 2] shortDecoding) ∧
      5 - far = 1 := by
  have decoding : Decoding false shortDecoding := by
    simp [shortDecoding, Decoding, StreamOp.popped]
  obtain ⟨cache, far, ran, window, maintained⟩ := stream_window_kept 2 1 1 3 2 4
    [[numberedPosition 0, numberedPosition 1], [numberedPosition 2]] shortDecoding (by decide) (by decide)
    (by decide) (by decide) decoding
  exact ⟨cache, far, ran, window, (maintained [.append [numberedPosition 3, numberedPosition 4],
    .maintain, .pop, .append [numberedPosition 5]] rfl).2 rfl⟩

end SpecBlock.Draft
