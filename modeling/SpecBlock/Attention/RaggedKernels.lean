import SpecBlock.Attention.Tiles

/-!
# Ragged draft attention and one row at a time

A batch keeps the draft keys of its rows in one cache, each row as far as its own length. A
step appends each row's valid slots behind its length, then lets every valid query attend to
the row's cached columns and to the appended ones in tree order. Blocks behind the first do the
same for leaves, each of which has an owner among the rows. All kernels run one softmax over
tiles of columns, none of them guarded.

A valid query always sees the first column, so its first tile is never masked, and a padded
query sees the first column for no other reason. What is left to compare is which columns are
seen. The leaves' kernel goes through the owner's columns as far as a common count; it needs
that count to reach the owner's length, which its caller checks and the kernel does not.
-/

namespace SpecBlock.Attention

open Ieee OnlineSoftmax

universe u
variable {R : Type u}

/-- The sizes of a ragged step, and each row's length and valid slots as the metadata check
leaves them. -/
structure RaggedBatch where
  rows : Nat
  heads : Nat
  groups : Nat
  width : Nat
  capacity : Nat
  slots : Nat
  lengths : Nat → Nat
  valid : Nat → Nat
  groups_pos : 0 < groups
  grouped : heads % groups = 0
  valid_le : ∀ row < rows, valid row ≤ width
  fits : ∀ row < rows, lengths row + valid row ≤ capacity

/-- The heads that keys and values have. -/
def RaggedBatch.kvHeads (batch : RaggedBatch) : Nat := batch.heads / batch.groups

section append

variable (batch : RaggedBatch)

/-- What one program of the append stores: one slot of one row and head. -/
def appendRaggedKvKernel (current : Tensor4 R) (slot row head : Nat) : List (Place × R) :=
  let destination := batch.lengths row + slot
  (List.range headDim).flatMap fun d =>
    if slot < batch.valid row ∧ destination < batch.capacity then
      [((row, head, destination, d), current row head slot d)]
    else []

/-- What all programs of the append store. -/
def appendStores (current : Tensor4 R) : List (Place × R) :=
  (List.range batch.width).flatMap fun slot =>
    (List.range batch.rows).flatMap fun row =>
      (List.range batch.kvHeads).flatMap fun head => appendRaggedKvKernel batch current slot row head

/-- A cache after the append. -/
def Appended (current : Tensor4 R) (cache result : Place → R) : Prop :=
  Stores.Outcome cache (appendStores batch current) result

/-- The place is one of a row's valid slots, behind the row's length. -/
def Behind (place : Place) : Prop :=
  place.1 < batch.rows ∧ place.2.1 < batch.kvHeads ∧ batch.lengths place.1 ≤ place.2.2.1 ∧
    place.2.2.1 < batch.lengths place.1 + batch.valid place.1 ∧ place.2.2.2 < headDim

end append

section tree

variable [Field R] [LinearOrder R] (e : R → R) (blockN : Nat) (scale : R)

/-- Whether a query sees a column before or in tree order with it: the columns before the count
are cached, and those behind are numbered by position and slot. -/
def treeVisible (slots crossCount i n : Nat) : Bool :=
  let isCross := decide (n < crossCount)
  let qPos : Int := i / slots
  let qSlot : Int := i - qPos * slots
  -- division truncates towards zero; cached columns are shown whatever it gives for them
  let currentIndex : Int := (n : Int) - crossCount
  let currentPos := currentIndex.tdiv slots
  let currentSlot := currentIndex - currentPos * slots
  isCross || decide (currentPos < qPos) || (currentPos == qPos && decide (currentSlot ≤ qSlot))

/-- Whether the ragged kernel loads a column of a row. -/
def rowKvValid (batch : RaggedBatch) (maxTotal row n : Nat) : Bool :=
  decide (n < maxTotal) && decide (n < batch.lengths row + batch.valid row)

/-- The columns the ragged kernel loads for a row. -/
def columnsRead (batch : RaggedBatch) (maxTotal row : Nat) : List Nat :=
  (blocks maxTotal blockN).flatten.filter (rowKvValid batch maxTotal row)

/-- A column of a tile of the ragged kernel. -/
def raggedLane (batch : RaggedBatch) (maxTotal : Nat) (q : Tensor4 R) (cacheK cacheV : Place → R)
    (row head i n : Nat) : Lane R Nat :=
  let pidKh := head / batch.groups
  let crossCount := batch.lengths row
  let totalValid := crossCount + batch.valid row
  let queryValid := decide (i < batch.valid row)
  let nInBounds := decide (n < maxTotal)
  let normalVisible := treeVisible batch.slots crossCount i n && decide (n < totalValid) && queryValid
  let paddingSentinel := !queryValid && (n == 0)
  maskedLane headDim scale (loaded (decide (i < batch.width)) (q row head i))
    (rowKvValid batch maxTotal row n) ((normalVisible || paddingSentinel) && nInBounds)
    (fun d => cacheK (row, pidKh, n, d)) (fun d => cacheV (row, pidKh, n, d))

/-- The state of a query after every tile of the ragged kernel. -/
def raggedState (batch : RaggedBatch) (maxTotal : Nat) (q : Tensor4 R) (cacheK cacheV : Place → R)
    (row head i : Nat) : State R Nat :=
  State.loop e false maxTotal blockN (raggedLane scale batch maxTotal q cacheK cacheV row head i) start

/-- The row it computes. -/
def raggedTreeRow (batch : RaggedBatch) (maxTotal : Nat) (q : Tensor4 R) (cacheK cacheV : Place → R)
    (row head i d : Nat) : Ieee R :=
  let state := raggedState e blockN scale batch maxTotal q cacheK cacheV row head i
  state.acc d / state.l

/-- Launch the ragged kernel on a fresh output, unless the common width is out of range. -/
def raggedTreeAttention (blockM : Nat) (batch : RaggedBatch) (maxTotal : Nat) (q : Tensor4 R)
    (cacheK cacheV : Place → R) (fresh : Place → Ieee R) : Option (Place → Ieee R) :=
  if maxTotal = 0 ∨ batch.capacity < maxTotal then none
  else some (Stores.store fresh (rowLaunch blockM batch.rows batch.heads batch.width headDim
    (raggedTreeRow e blockN scale batch maxTotal q cacheK cacheV)
    ((batch.width + blockM - 1) / blockM)))

/-- The sizes of a tree attention on one sequence. -/
structure TreeSizes where
  heads : Nat
  groups : Nat
  M : Nat
  C : Nat
  crossCount : Nat
  slots : Nat

/-- The row the kernel for one cross length computes. -/
def treeGqaRow (sizes : TreeSizes) (q k v : Tensor4 R) (b head i d : Nat) : Ieee R :=
  let pidHkv := head / sizes.groups
  let state := State.loop e false sizes.C blockN (fun n =>
    let nInBounds := decide (n < sizes.C)
    maskedLane headDim scale (loaded (decide (i < sizes.M)) (q b head i)) nInBounds
      (treeVisible sizes.slots sizes.crossCount i n && nInBounds) (k b pidHkv n) (v b pidHkv n)) start
  state.acc d / state.l

/-- Launch that kernel on a fresh output, for a batch of one. -/
def treeAttentionGqa (blockM : Nat) (sizes : TreeSizes) (q k v : Tensor4 R)
    (fresh : Place → Ieee R) : Place → Ieee R :=
  Stores.store fresh (rowLaunch blockM 1 sizes.heads sizes.M headDim
    (treeGqaRow e blockN scale sizes q k v) ((sizes.M + blockM - 1) / blockM))

end tree

section leaves

variable [Field R] [LinearOrder R] (e : R → R) (blockN : Nat) (scale : R)

/-- Keys or values of one sequence, by column and channel. -/
abbrev Columns (R : Type u) := Nat → Nat → R

/-- The loop over the block before, which may be absent. -/
def previousLoop (ttt : Option (Nat × (Nat → Bool))) (tttK tttV : Columns R) (q : Nat → R)
    (state : State R Nat) : State R Nat :=
  match ttt with
  | some (count, mask) => state.loop e false count blockN (fun t =>
      let nInBounds := decide (t < count)
      maskedLane headDim scale q nInBounds ((if nInBounds then mask t else false) && nInBounds)
        (tttK t) (tttV t))
  | none => state

/-- The state of a query after the three loops of a leaf's attention: the cached columns up to
an end, of which those before a count are loaded, the block before under a mask, and the own
slots in order. -/
def threePartState (crossEnd crossCount : Nat) (crossK crossV : Columns R)
    (ttt : Option (Nat × (Nat → Bool))) (tttK tttV : Columns R) (slots : Nat)
    (currK currV : Columns R) (q : Nat → R) (i : Nat) : State R Nat :=
  let cross := State.loop e false crossEnd blockN (fun n =>
    let nInBounds := decide (n < crossCount)
    maskedLane headDim scale q nInBounds nInBounds (crossK n) (crossV n)) start
  let previous := previousLoop e blockN scale ttt tttK tttV q cross
  previous.loop e false slots blockN (fun s =>
    let nInBounds := decide (s < slots)
    maskedLane headDim scale q nInBounds (decide (s ≤ i) && nInBounds) (currK s) (currV s))

/-- The sizes of the leaves' attention, each leaf's owner and each owner's length. -/
structure LeafBatch where
  leaves : Nat
  requests : Nat
  heads : Nat
  groups : Nat
  slots : Nat
  tttCount : Nat
  capacity : Nat
  crossLengths : Nat → Nat
  leafOwner : Nat → Nat
  tttMask : Nat → Nat → Bool
  owned : ∀ leaf < leaves, leafOwner leaf < requests
  crossed : ∀ request < requests, 1 ≤ crossLengths request
  fits : ∀ request < requests, crossLengths request ≤ capacity

/-- What the leaves' attention reads: queries and own keys by leaf, cached keys and those of the
block before by owner. -/
structure LeafInputs (R : Type u) where
  q : Tensor4 R
  crossK : Tensor4 R
  crossV : Tensor4 R
  tttK : Tensor4 R
  tttV : Tensor4 R
  currK : Tensor4 R
  currV : Tensor4 R

/-- The row the leaves' kernel computes. -/
def raggedThreePartRow (batch : LeafBatch) (maxCrossCount : Nat) (inputs : LeafInputs R)
    (leaf head i d : Nat) : Ieee R :=
  let pidKh := head / batch.groups
  let owner := min (batch.leafOwner leaf) (batch.requests - 1)
  let q := loaded (decide (i < batch.slots)) (inputs.q leaf head i)
  let state := threePartState e blockN scale maxCrossCount (batch.crossLengths owner)
    (inputs.crossK owner pidKh) (inputs.crossV owner pidKh)
    (some (batch.tttCount, batch.tttMask leaf)) (inputs.tttK owner pidKh) (inputs.tttV owner pidKh)
    batch.slots (inputs.currK leaf pidKh) (inputs.currV leaf pidKh) q i
  state.acc d / state.l

/-- Launch it on a fresh output, unless the common count is out of range. One tile holds the
slots of a leaf. -/
def raggedThreePartAttention (blockM : Nat) (batch : LeafBatch) (maxCrossCount : Nat)
    (inputs : LeafInputs R) (fresh : Place → Ieee R) : Option (Place → Ieee R) :=
  if maxCrossCount = 0 ∨ batch.capacity < maxCrossCount then none
  else some (Stores.store fresh (rowLaunch blockM batch.leaves batch.heads batch.slots headDim
    (raggedThreePartRow e blockN scale batch maxCrossCount inputs) 1))

/-- The sizes of the attention of one block over a cache of its own. -/
structure ThreePartSizes where
  heads : Nat
  groups : Nat
  slots : Nat
  crossCount : Nat
  tttCount : Nat
  tttMask : Nat → Nat → Bool

/-- The row the kernel for one cross length computes. -/
def threePartRow (sizes : ThreePartSizes) (inputs : LeafInputs R) (b head i d : Nat) : Ieee R :=
  let pidKh := head / sizes.groups
  let q := loaded (decide (i < sizes.slots)) (inputs.q b head i)
  let ttt := if 0 < sizes.tttCount then some (sizes.tttCount, sizes.tttMask b) else none
  let state := threePartState e blockN scale sizes.crossCount sizes.crossCount
    (inputs.crossK b pidKh) (inputs.crossV b pidKh) ttt (inputs.tttK b pidKh) (inputs.tttV b pidKh)
    sizes.slots (inputs.currK b pidKh) (inputs.currV b pidKh) q i
  state.acc d / state.l

/-- Launch that kernel on a fresh output, for a batch of one. -/
def threePartAttention (blockM : Nat) (sizes : ThreePartSizes) (inputs : LeafInputs R)
    (fresh : Place → Ieee R) : Place → Ieee R :=
  Stores.store fresh (rowLaunch blockM 1 sizes.heads sizes.slots headDim
    (threePartRow e blockN scale sizes inputs) 1)

end leaves

section appending

variable (batch : RaggedBatch) (current : Tensor4 R) {cache result : Place → R}

theorem mem_appendStores {entry : Place × R} : entry ∈ appendStores batch current ↔
    ∃ slot row head d, row < batch.rows ∧ head < batch.kvHeads ∧ slot < batch.valid row ∧
      d < headDim ∧ entry = ((row, head, batch.lengths row + slot, d), current row head slot d) := by
  simp only [appendStores, appendRaggedKvKernel, List.mem_flatMap, List.mem_range]
  constructor
  · rintro ⟨slot, -, row, isRow, head, isHead, d, channel, stored⟩
    split at stored
    case isFalse => simp at stored
    case isTrue bounds =>
      exact ⟨slot, row, head, d, isRow, isHead, bounds.1, channel, by simpa using stored⟩
  · rintro ⟨slot, row, head, d, isRow, isHead, inside, channel, rfl⟩
    have narrow := batch.valid_le row isRow
    have room := batch.fits row isRow
    refine ⟨slot, by omega, row, isRow, head, isHead, d, channel, ?_⟩
    rw [if_pos ⟨inside, by omega⟩]
    exact List.mem_singleton_self _

/-- After the append, in any order, the places behind a row's length have the row's slots. -/
theorem appended_behind (appended : Appended batch current cache result) {row head n d : Nat}
    (behind : Behind batch (row, head, n, d)) :
    result (row, head, n, d) = current row head (n - batch.lengths row) d := by
  obtain ⟨isRow, isHead, past, before, channel⟩ := behind
  dsimp only at isRow isHead past before channel
  have place : n = batch.lengths row + (n - batch.lengths row) := by omega
  refine appended.agreed ((mem_appendStores batch current).mpr
    ⟨n - batch.lengths row, row, head, d, isRow, isHead, by omega, channel, ?_⟩) ?_
  · rw [← place]
  · intro entry stored same
    obtain ⟨slot, otherRow, otherHead, otherD, -, -, -, -, rfl⟩ :=
      (mem_appendStores batch current).mp stored
    obtain ⟨rfl, rfl, sameColumn, rfl⟩ : otherRow = row ∧ otherHead = head ∧
        batch.lengths otherRow + slot = n ∧ otherD = d := by
      simpa using same
    rw [← sameColumn, Nat.add_sub_cancel_left]

theorem appended_elsewhere (appended : Appended batch current cache result) {place : Place}
    (elsewhere : ¬Behind batch place) : result place = cache place := by
  apply appended.frame
  intro entry stored same
  obtain ⟨slot, row, head, d, isRow, isHead, inside, channel, rfl⟩ :=
    (mem_appendStores batch current).mp stored
  obtain rfl := same
  exact elsewhere ⟨isRow, isHead, Nat.le_add_right _ _, by simpa using inside, channel⟩

end appending

theorem treeVisible_first (slots crossCount i : Nat) : treeVisible slots crossCount i 0 = true := by
  rcases Nat.eq_zero_or_pos crossCount with rfl | cached
  · rcases Nat.eq_zero_or_pos (i / slots) with first | later
    · have noPosition : (i : Int) / slots = 0 := by exact_mod_cast first
      simp [treeVisible, noPosition]
    · have position : (0 : Int) < (i : Int) / slots := by exact_mod_cast later
      simp [treeVisible, position]
  · simp [treeVisible, cached]

section columns

variable [Field R] (scale : R)

/-- The columns a query sees among the first ones, in tree order. -/
def treeKeys (slots crossCount total i : Nat) (q : Nat → R) (k v : Columns R) : List (Key R Nat) :=
  ((List.range total).filter (treeVisible slots crossCount i)).map
    fun n => keyOf headDim scale q (k n) (v n)

theorem treeKeys_some {slots crossCount total i : Nat} (some : 0 < total) (q : Nat → R)
    (k v : Columns R) : treeKeys scale slots crossCount total i q k v ≠ [] := by
  have listed : 0 ∈ (List.range total).filter (treeVisible slots crossCount i) :=
    List.mem_filter.mpr ⟨List.mem_range.mpr some, treeVisible_first slots crossCount i⟩
  simp [treeKeys, List.ne_nil_of_mem listed]

theorem treeKeys_congr (e : R → R) {slots crossCount total i d : Nat} {q : Nat → R}
    {k v k' v' : Columns R} (channel : d < headDim)
    (same : ∀ n < total, ∀ c < headDim, k n c = k' n c ∧ v n c = v' n c) :
    softmax e (treeKeys scale slots crossCount total i q k v) d =
      softmax e (treeKeys scale slots crossCount total i q k' v') d := by
  apply softmax_congr
  intro n member
  have inside := same n (List.mem_range.mp (List.mem_of_mem_filter member))
  have products := dot_congr q (fun c before => (inside c before).1)
  exact ⟨congrArg (· * scale) products, (inside d channel).2⟩

end columns

section treeStates

variable [Field R] [LinearOrder R] (e : Exponential R) {blockN : Nat} (scale : R)

/-- The kernel for one cross length adds the columns in tree order. -/
theorem gqa_represents (positive : 0 < blockN) (slots crossCount i : Nat) {total : Nat}
    (some : 0 < total) (q : Nat → R) (k v : Columns R) :
    Represents e (treeKeys scale slots crossCount total i q k v)
      (State.loop e false total blockN (fun n => maskedLane headDim scale q (decide (n < total))
        (treeVisible slots crossCount i n && decide (n < total)) (k n) (v n)) start) := by
  have loop := masked_first e headDim scale q total (fun n => decide (n < total))
    (fun n => treeVisible slots crossCount i n && decide (n < total)) k v Represents.empty positive
    (fun n shown => by simp at shown; exact shown.2) (fun n shown => by simp at shown; simp [shown.2])
    ⟨0, positive, by simp [treeVisible_first, some]⟩
  have listed : (List.range total).filter
      (fun n => treeVisible slots crossCount i n && decide (n < total)) =
      (List.range total).filter (treeVisible slots crossCount i) := by
    apply List.filter_congr
    intro n member
    simp [List.mem_range.mp member]
  rw [listed, List.nil_append] at loop
  exact loop

variable {batch : RaggedBatch} {maxTotal row i : Nat} (head : Nat) (q : Tensor4 R)
  (cacheK cacheV : Place → R)

theorem ragged_represents (positive : 0 < blockN) (isRow : row < batch.rows)
    (reach : batch.lengths row + batch.valid row ≤ maxTotal) (isValid : i < batch.valid row) :
    Represents e (treeKeys scale batch.slots (batch.lengths row) (batch.lengths row + batch.valid row) i
        (q row head i) (fun n d => cacheK (row, head / batch.groups, n, d))
        (fun n d => cacheV (row, head / batch.groups, n, d)))
      (raggedState e blockN scale batch maxTotal q cacheK cacheV row head i) := by
  have width := batch.valid_le row isRow
  have total : 0 < batch.lengths row + batch.valid row := by omega
  have query : loaded (decide (i < batch.width)) (q row head i) = q row head i :=
    loaded_inside (decide_eq_true (by omega)) _
  have shown (n : Nat) : ((treeVisible batch.slots (batch.lengths row) i n &&
        decide (n < batch.lengths row + batch.valid row) && decide (i < batch.valid row) ||
        !decide (i < batch.valid row) && (n == 0)) && decide (n < maxTotal)) =
      (treeVisible batch.slots (batch.lengths row) i n &&
        decide (n < batch.lengths row + batch.valid row)) := by
    by_cases inside : n < batch.lengths row + batch.valid row
    · have within : n < maxTotal := by omega
      simp [isValid, inside, within]
    · simp [isValid, inside]
  have loop := masked_first e headDim scale (q row head i) maxTotal (rowKvValid batch maxTotal row)
    (fun n => treeVisible batch.slots (batch.lengths row) i n &&
      decide (n < batch.lengths row + batch.valid row))
    (fun n d => cacheK (row, head / batch.groups, n, d))
    (fun n d => cacheV (row, head / batch.groups, n, d)) Represents.empty positive
    (fun n visible => by simp at visible; omega)
    (fun n visible => by simp at visible; simp [rowKvValid]; omega)
    ⟨0, positive, by simp [treeVisible_first]; omega⟩
  have listed : (List.range maxTotal).filter (fun n => treeVisible batch.slots (batch.lengths row) i n &&
      decide (n < batch.lengths row + batch.valid row)) =
      (List.range (batch.lengths row + batch.valid row)).filter
        (treeVisible batch.slots (batch.lengths row) i) := by
    rw [← range_filter_below reach, List.filter_filter]
  rw [listed, List.nil_append] at loop
  unfold raggedState raggedLane
  simp only [query, shown]
  exact loop

/-- A padded query sees the first column and nothing else, so its sum is above zero. -/
theorem padded_positive [IsStrictOrderedRing R] (positive : 0 < blockN) (some : 0 < maxTotal)
    (padded : batch.valid row ≤ i) :
    ∃ sum, 0 < sum ∧ (raggedState e blockN scale batch maxTotal q cacheK cacheV row head i).l = fin sum := by
  have shown (n : Nat) : ((treeVisible batch.slots (batch.lengths row) i n &&
        decide (n < batch.lengths row + batch.valid row) && decide (i < batch.valid row) ||
        !decide (i < batch.valid row) && (n == 0)) && decide (n < maxTotal)) = decide (n = 0) := by
    rcases Nat.eq_zero_or_pos n with rfl | later
    · simp [Nat.not_lt.mpr padded, some]
    · have notFirst : n ≠ 0 := by omega
      simp [Nat.not_lt.mpr padded, notFirst]
  unfold raggedState raggedLane
  simp only [shown]
  exact start_loop_positive e positive (fun n isFirst => by simp at isFirst; omega)
    ⟨0, positive, by simp⟩

omit [Field R] [LinearOrder R] in
/-- The columns the ragged kernel loads for a row end with the row. -/
theorem columnsRead_below {n : Nat} (read : n ∈ columnsRead blockN batch maxTotal row) :
    n < batch.lengths row + batch.valid row := by
  have loads := List.of_mem_filter read
  simp only [rowKvValid, Bool.and_eq_true, decide_eq_true_eq] at loads
  exact loads.2

/-- The state of any query depends on the columns loaded only. -/
theorem raggedState_congr (cacheK' cacheV' : Place → R)
    (same : ∀ n ∈ columnsRead blockN batch maxTotal row, ∀ d,
      cacheK (row, head / batch.groups, n, d) = cacheK' (row, head / batch.groups, n, d) ∧
      cacheV (row, head / batch.groups, n, d) = cacheV' (row, head / batch.groups, n, d)) :
    raggedState e blockN scale batch maxTotal q cacheK cacheV row head i =
      raggedState e blockN scale batch maxTotal q cacheK' cacheV' row head i := by
  apply State.loop_congr
  intro n inTiles
  unfold raggedLane
  dsimp only
  cases loads : rowKvValid batch maxTotal row n with
  | false => rfl
  | true =>
    have read : n ∈ columnsRead blockN batch maxTotal row := by
      refine List.mem_filter.mpr ⟨?_, loads⟩
      rw [blocks_flatten]
      exact List.mem_range.mpr inTiles
    have keys := funext (fun d => (same n read d).1)
    have values := funext (fun d => (same n read d).2)
    rw [keys, values]

end treeStates

section leafStates

variable [Field R] [LinearOrder R] (e : Exponential R) {blockN : Nat} (scale : R)

/-- The columns of a leaf's query: the owner's first ones, those of the block before that a mask
allows, and the own slots up to the query's. -/
def leafKeys (crossCount : Nat) (crossK crossV : Columns R) (tttCount : Nat) (mask : Nat → Bool)
    (tttK tttV : Columns R) (slots : Nat) (currK currV : Columns R) (q : Nat → R) (i : Nat) :
    List (Key R Nat) :=
  (List.range crossCount).map (fun n => keyOf headDim scale q (crossK n) (crossV n)) ++
    ((List.range tttCount).filter mask).map (fun t => keyOf headDim scale q (tttK t) (tttV t)) ++
    ((List.range slots).filter (fun s => decide (s ≤ i))).map
      (fun s => keyOf headDim scale q (currK s) (currV s))

/-- The loop over the block before adds the columns its mask allows. -/
theorem previousLoop_represents (positive : 0 < blockN) {keys : List (Key R Nat)} {state : State R Nat}
    (represents : Represents e keys state) (some : keys ≠ []) {tttCount : Nat} {mask : Nat → Bool}
    {ttt : Option (Nat × (Nat → Bool))}
    (given : ttt = Option.some (tttCount, mask) ∨ (ttt = none ∧ tttCount = 0))
    (tttK tttV : Columns R) (q : Nat → R) :
    Represents e
      (keys ++ ((List.range tttCount).filter mask).map (fun t => keyOf headDim scale q (tttK t) (tttV t)))
      (previousLoop e blockN scale ttt tttK tttV q state) := by
  rcases given with rfl | ⟨rfl, rfl⟩
  · have loop := masked_unguarded e headDim scale q tttCount (fun t => decide (t < tttCount))
      (fun t => (if decide (t < tttCount) then mask t else false) && decide (t < tttCount)) tttK tttV
      represents some positive (fun t shown => by simp at shown; exact shown.2)
      (fun t shown => by simp at shown; simp [shown.2])
    have listed : (List.range tttCount).filter
        (fun t => (if decide (t < tttCount) then mask t else false) && decide (t < tttCount)) =
        (List.range tttCount).filter mask := by
      apply List.filter_congr
      intro t member
      simp [List.mem_range.mp member]
    rw [listed] at loop
    exact loop
  · rw [List.range_zero, List.filter_nil, List.map_nil, List.append_nil]
    exact represents

/-- The three loops add them, if the first reaches the owner's columns. -/
theorem threePart_represents (positive : 0 < blockN) {crossEnd crossCount : Nat}
    (some : 1 ≤ crossCount) (reach : crossCount ≤ crossEnd) (crossK crossV : Columns R)
    {tttCount : Nat} {mask : Nat → Bool} {ttt : Option (Nat × (Nat → Bool))}
    (given : ttt = Option.some (tttCount, mask) ∨ (ttt = none ∧ tttCount = 0))
    (tttK tttV : Columns R) (slots : Nat) (currK currV : Columns R) (q : Nat → R) (i : Nat) :
    Represents e
      (leafKeys scale crossCount crossK crossV tttCount mask tttK tttV slots currK currV q i)
      (threePartState e blockN scale crossEnd crossCount crossK crossV ttt tttK tttV slots currK currV
        q i) := by
  have cross := masked_first e headDim scale q crossEnd (fun n => decide (n < crossCount))
    (fun n => decide (n < crossCount)) crossK crossV Represents.empty positive
    (fun n shown => by simp at shown; omega) (fun n shown => shown) ⟨0, positive, by simp; omega⟩
  rw [range_filter_below reach, List.nil_append] at cross
  have crossSome : (List.range crossCount).map (fun n => keyOf headDim scale q (crossK n) (crossV n)) ≠
      [] := by
    simp [Nat.one_le_iff_ne_zero.mp some]
  have previous := previousLoop_represents e scale positive cross crossSome given tttK tttV q
  have current := masked_unguarded e headDim scale q slots (fun s => decide (s < slots))
    (fun s => decide (s ≤ i) && decide (s < slots)) currK currV previous (by simp [crossSome]) positive
    (fun s shown => by simp at shown; exact shown.2) (fun s shown => by simp at shown; simp [shown.2])
  have listed : (List.range slots).filter (fun s => decide (s ≤ i) && decide (s < slots)) =
      (List.range slots).filter (fun s => decide (s ≤ i)) := by
    apply List.filter_congr
    intro s member
    simp [List.mem_range.mp member]
  rw [listed] at current
  exact current

theorem threePart_quotient [IsStrictOrderedRing R] (positive : 0 < blockN) {crossEnd crossCount : Nat}
    (some : 1 ≤ crossCount) (reach : crossCount ≤ crossEnd) (crossK crossV : Columns R)
    {tttCount : Nat} {mask : Nat → Bool} {ttt : Option (Nat × (Nat → Bool))}
    (given : ttt = Option.some (tttCount, mask) ∨ (ttt = none ∧ tttCount = 0))
    (tttK tttV : Columns R) (slots : Nat) (currK currV : Columns R) (q : Nat → R) (i d : Nat) :
    (threePartState e blockN scale crossEnd crossCount crossK crossV ttt tttK tttV slots currK currV
        q i).acc d /
      (threePartState e blockN scale crossEnd crossCount crossK crossV ttt tttK tttV slots currK currV
        q i).l =
      fin (softmax e
        (leafKeys scale crossCount crossK crossV tttCount mask tttK tttV slots currK currV q i) d) := by
  refine Represents.quotient e (threePart_represents e scale positive some reach crossK crossV given
    tttK tttV slots currK currV q i) ?_ d
  simp [leafKeys, Nat.one_le_iff_ne_zero.mp some]

end leafStates

section agreement

variable [Field R] [LinearOrder R] (e : Exponential R) (scale : R)

/-- The append stores each row's valid slots behind the row's length and nothing else. -/
def AppendsRows (batch : RaggedBatch) : Prop :=
  ∀ (current : Tensor4 R) (cache result : Place → R), Appended batch current cache result →
    ∀ row head n d,
      (Behind batch (row, head, n, d) →
        result (row, head, n, d) = current row head (n - batch.lengths row) d) ∧
      (¬Behind batch (row, head, n, d) → result (row, head, n, d) = cache (row, head, n, d))

/-- A row's cached and current keys in one tensor of their own. -/
def rowAlone (batch : RaggedBatch) (cache : Place → R) (current : Tensor4 R) (row : Nat) : Tensor4 R :=
  fun _ head n d =>
    if n < batch.lengths row then cache (row, head, n, d)
    else current row head (n - batch.lengths row) d

/-- The sizes of a row on its own. -/
def aloneSizes (batch : RaggedBatch) (row : Nat) : TreeSizes :=
  ⟨batch.heads, batch.groups, batch.valid row, batch.lengths row + batch.valid row, batch.lengths row,
    batch.slots⟩

/-- Behind the append, the ragged attention gives each valid query what the attention of its row
alone gives. It loads no column behind the row, nothing else of the caches mattering to any
query, and leaves padded queries a sum above zero. -/
def TreeMatchesRows (blockM blockN aloneM aloneN : Nat) (batch : RaggedBatch) (maxTotal : Nat) : Prop :=
  ∀ (q currentK currentV : Tensor4 R) (cacheK cacheV appendedK appendedV : Place → R)
    (fresh alone : Place → Ieee R),
    Appended batch currentK cacheK appendedK → Appended batch currentV cacheV appendedV →
    ∃ out, raggedTreeAttention e blockN scale blockM batch maxTotal q appendedK appendedV fresh = some out ∧
      ∀ row < batch.rows, (∀ n ∈ columnsRead blockN batch maxTotal row,
          n < batch.lengths row + batch.valid row) ∧
        ∀ head < batch.heads, ∀ i < batch.width,
          (∀ otherK otherV : Place → R, (∀ n ∈ columnsRead blockN batch maxTotal row, ∀ d,
              appendedK (row, head / batch.groups, n, d) = otherK (row, head / batch.groups, n, d) ∧
              appendedV (row, head / batch.groups, n, d) = otherV (row, head / batch.groups, n, d)) →
            raggedState e blockN scale batch maxTotal q appendedK appendedV row head i =
              raggedState e blockN scale batch maxTotal q otherK otherV row head i) ∧
          (batch.valid row ≤ i → ∃ sum, 0 < sum ∧
            (raggedState e blockN scale batch maxTotal q appendedK appendedV row head i).l = fin sum) ∧
          (i < batch.valid row → ∀ d < headDim, out (row, head, i, d) =
            treeAttentionGqa e aloneN scale aloneM (aloneSizes batch row) (fun _ => q row)
              (rowAlone batch cacheK currentK row) (rowAlone batch cacheV currentV row) alone
              (0, head, i, d))

/-- The inputs of one leaf over its owner's cache. -/
def LeafInputs.alone (inputs : LeafInputs R) (owner leaf : Nat) : LeafInputs R :=
  ⟨fun _ => inputs.q leaf, fun _ => inputs.crossK owner, fun _ => inputs.crossV owner,
    fun _ => inputs.tttK owner, fun _ => inputs.tttV owner, fun _ => inputs.currK leaf,
    fun _ => inputs.currV leaf⟩

/-- The sizes of one leaf over its owner's cache. -/
def LeafBatch.alone (batch : LeafBatch) (leaf : Nat) : ThreePartSizes :=
  ⟨batch.heads, batch.groups, batch.slots, batch.crossLengths (batch.leafOwner leaf), batch.tttCount,
    fun _ => batch.tttMask leaf⟩

/-- The leaves' attention gives each leaf what the attention over its owner's cache gives. -/
def LeavesMatchOwners (blockM blockN aloneM aloneN : Nat) (batch : LeafBatch) (maxCrossCount : Nat) :
    Prop :=
  ∀ (inputs : LeafInputs R) (fresh alone : Place → Ieee R),
    ∃ out, raggedThreePartAttention e blockN scale blockM batch maxCrossCount inputs fresh = some out ∧
      ∀ leaf < batch.leaves, ∀ head < batch.heads, ∀ i < batch.slots, ∀ d < headDim,
        out (leaf, head, i, d) = threePartAttention e aloneN scale aloneM (batch.alone leaf)
          (inputs.alone (batch.leafOwner leaf) leaf) alone (0, head, i, d)

end agreement

section verdict

variable [Field R] [LinearOrder R] [IsStrictOrderedRing R] (e : Exponential R) (scale : R)
  {blockM blockN aloneM aloneN : Nat}

/-- The ragged tree attention behind the append matches each row alone. -/
theorem treeMatchesRows (positiveM : 0 < blockM) (positiveN : 0 < blockN) (aloneM_pos : 0 < aloneM)
    (aloneN_pos : 0 < aloneN) (batch : RaggedBatch) {maxTotal : Nat} (some : 0 < maxTotal)
    (room : maxTotal ≤ batch.capacity)
    (reach : ∀ row < batch.rows, batch.lengths row + batch.valid row ≤ maxTotal) :
    TreeMatchesRows e scale blockM blockN aloneM aloneN batch maxTotal := by
  intro q currentK currentV cacheK cacheV appendedK appendedV fresh alone keysAppended valuesAppended
  have inRange : ¬(maxTotal = 0 ∨ batch.capacity < maxTotal) := by omega
  refine ⟨_, if_neg inRange, fun row isRow => ⟨fun n => columnsRead_below, fun head isHead i inside =>
    ⟨fun otherK otherV same => raggedState_congr e scale head q appendedK appendedV otherK otherV same,
      fun padded => padded_positive e scale head q appendedK appendedV positiveN some padded, fun isValid d channel => ?_⟩⟩⟩
  have total : 0 < batch.lengths row + batch.valid row := by omega
  have isKvHead : head / batch.groups < batch.kvHeads := by
    rw [RaggedBatch.kvHeads, Nat.div_lt_iff_lt_mul batch.groups_pos,
      Nat.div_mul_cancel (Nat.dvd_of_mod_eq_zero batch.grouped)]
    exact isHead
  have query : loaded (decide (i < batch.valid row)) (q row head i) = q row head i :=
    loaded_inside (decide_eq_true isValid) _
  have entries (current : Tensor4 R) (cache appended : Place → R)
      (isAppended : Appended batch current cache appended) (n : Nat)
      (before : n < batch.lengths row + batch.valid row) (c : Nat) (isChannel : c < headDim) :
      appended (row, head / batch.groups, n, c) =
        rowAlone batch cache current row 0 (head / batch.groups) n c := by
    rw [rowAlone]
    split
    case isTrue cached =>
      exact appended_elsewhere batch current isAppended
        (fun behind => absurd behind.2.2.1 (Nat.not_le.mpr cached))
    case isFalse past =>
      exact appended_behind batch current isAppended
        ⟨isRow, isKvHead, Nat.not_lt.mp past, before, isChannel⟩
  have ragged := (ragged_represents e scale head q appendedK appendedV positiveN isRow (reach row isRow)
    isValid).quotient e (treeKeys_some scale total _ _ _) d
  have solo := (gqa_represents e scale aloneN_pos batch.slots (batch.lengths row) i total (q row head i)
    (rowAlone batch cacheK currentK row 0 (head / batch.groups))
    (rowAlone batch cacheV currentV row 0 (head / batch.groups))).quotient e (treeKeys_some scale total _ _ _) d
  rw [treeKeys_congr scale e channel (fun n before c isChannel =>
    ⟨entries currentK cacheK appendedK keysAppended n before c isChannel,
      entries currentV cacheV appendedV valuesAppended n before c isChannel⟩), ← solo] at ragged
  refine (rowLaunch_written _ _ _ _ _ _ positiveM (row_tile _ _ positiveM inside) isRow isHead inside
    channel fresh).trans ?_
  refine Eq.trans ?_ (rowLaunch_written _ _ _ _ _ _ aloneM_pos (row_tile _ _ aloneM_pos isValid)
    Nat.one_pos isHead isValid channel alone).symm
  refine Eq.trans ragged ?_
  unfold treeGqaRow aloneSizes
  dsimp only
  rw [query]

/-- The leaves' attention matches each leaf over its owner's cache, if the common count reaches
the owners' lengths. -/
theorem leavesMatchOwners (positiveN : 0 < blockN) (aloneN_pos : 0 < aloneN) (batch : LeafBatch)
    (tile : batch.slots ≤ blockM) (aloneTile : batch.slots ≤ aloneM) {maxCrossCount : Nat}
    (some : 0 < maxCrossCount) (room : maxCrossCount ≤ batch.capacity)
    (reach : ∀ leaf < batch.leaves, batch.crossLengths (batch.leafOwner leaf) ≤ maxCrossCount) :
    LeavesMatchOwners e scale blockM blockN aloneM aloneN batch maxCrossCount := by
  intro inputs fresh alone
  have inRange : ¬(maxCrossCount = 0 ∨ batch.capacity < maxCrossCount) := by omega
  refine ⟨_, if_neg inRange, fun leaf isLeaf head isHead i inside d channel => ?_⟩
  have owned := batch.owned leaf isLeaf
  have owner : min (batch.leafOwner leaf) (batch.requests - 1) = batch.leafOwner leaf := by omega
  have crossed := batch.crossed _ owned
  have given : (if 0 < batch.tttCount then Option.some (batch.tttCount, batch.tttMask leaf) else none) =
      Option.some (batch.tttCount, batch.tttMask leaf) ∨
      ((if 0 < batch.tttCount then Option.some (batch.tttCount, batch.tttMask leaf) else none) = none ∧
        batch.tttCount = 0) := by
    rcases Nat.eq_zero_or_pos batch.tttCount with none | present
    · exact .inr ⟨if_neg (by omega), none⟩
    · exact .inl (if_pos present)
  refine (rowLaunch_written _ _ _ _ _ _ (by omega) (by rw [Nat.div_eq_of_lt (by omega)]; exact Nat.one_pos)
    isLeaf isHead inside channel fresh).trans ?_
  refine Eq.trans ?_ (rowLaunch_written _ _ _ _ _ _ (by omega)
    (by rw [Nat.div_eq_of_lt (by omega)]; exact Nat.one_pos) Nat.one_pos isHead inside channel alone).symm
  unfold raggedThreePartRow threePartRow LeafBatch.alone LeafInputs.alone
  dsimp only
  rw [owner, threePart_quotient e scale positiveN crossed (reach leaf isLeaf) _ _ (.inl rfl),
    threePart_quotient e scale aloneN_pos crossed le_rfl _ _ given]

end verdict

/-- The append stores each row's valid slots behind its length, in any order of its programs. -/
theorem appendsRows (batch : RaggedBatch) : AppendsRows (R := R) batch :=
  fun current _ _ appended _ _ _ _ =>
    ⟨appended_behind batch current appended, appended_elsewhere batch current appended⟩

/-- The append, the ragged tree attention behind it and the leaves' attention do for each row and
leaf what the kernels for one cross length do for it alone, whatever the tiles, if the common
counts reach the rows and the owners. -/
theorem ragged_matches_alone [Field R] [LinearOrder R] [IsStrictOrderedRing R] (e : Exponential R)
    (scale : R) {blockM blockN aloneM aloneN leafM leafN soloM soloN : Nat} (positiveM : 0 < blockM)
    (positiveN : 0 < blockN) (aloneM_pos : 0 < aloneM) (aloneN_pos : 0 < aloneN) (leafN_pos : 0 < leafN)
    (soloN_pos : 0 < soloN) (batch : RaggedBatch) {maxTotal : Nat} (some : 0 < maxTotal)
    (room : maxTotal ≤ batch.capacity)
    (reach : ∀ row < batch.rows, batch.lengths row + batch.valid row ≤ maxTotal)
    (leaves : LeafBatch) (tile : leaves.slots ≤ leafM) (soloTile : leaves.slots ≤ soloM)
    {maxCrossCount : Nat} (crossSome : 0 < maxCrossCount) (crossRoom : maxCrossCount ≤ leaves.capacity)
    (crossReach : ∀ leaf < leaves.leaves, leaves.crossLengths (leaves.leafOwner leaf) ≤ maxCrossCount) :
    AppendsRows (R := R) batch ∧
      TreeMatchesRows e scale blockM blockN aloneM aloneN batch maxTotal ∧
      LeavesMatchOwners e scale leafM leafN soloM soloN leaves maxCrossCount := by
  refine ⟨appendsRows batch, ?_, ?_⟩
  · exact treeMatchesRows e scale positiveM positiveN aloneM_pos aloneN_pos batch some room reach
  · exact leavesMatchOwners e scale leafN_pos soloN_pos leaves tile soloTile crossSome crossRoom crossReach

section instances

/-- Two rows, the first without a cached column, the second with a padded slot. -/
def twoRows : RaggedBatch where
  rows := 2
  heads := 4
  groups := 2
  width := 2
  capacity := 4
  slots := 2
  lengths row := if row = 0 then 0 else 3
  valid row := if row = 0 then 2 else 1
  groups_pos := Nat.two_pos
  grouped := rfl
  valid_le := by
    intro row _
    split <;> omega
  fits := by
    intro row _
    split <;> omega

/-- A leaf of one slot over an owner of sixty-five columns. -/
def longLeaf : LeafBatch where
  leaves := 1
  requests := 1
  heads := 1
  groups := 1
  slots := 1
  tttCount := 0
  capacity := 65
  crossLengths _ := 65
  leafOwner _ := 0
  tttMask _ _ := false
  owned := by decide
  crossed := by decide
  fits := by decide

/-- The agreement on the two rows and on the leaf, its common count reaching the owner. -/
theorem ragged_matches_alone_small :
    AppendsRows (R := ℝ) twoRows ∧ TreeMatchesRows realExponential 1 2 64 2 64 twoRows 4 ∧
      LeavesMatchOwners realExponential 1 1 64 1 64 longLeaf 65 :=
  ragged_matches_alone realExponential 1 (by decide) (by decide) (by decide) (by decide) (by decide)
    (by decide) twoRows (by decide) (by decide) (by decide) longLeaf (by decide) (by decide) (by decide)
    (by decide) (by decide)

/-- Inputs whose only value is the owner's last one. -/
noncomputable def lastValue : LeafInputs ℝ where
  q _ _ _ _ := 0
  crossK _ _ _ _ := 0
  crossV _ _ n _ := if n = 64 then 1 else 0
  tttK _ _ _ _ := 0
  tttV _ _ _ _ := 0
  currK _ _ _ _ := 0
  currV _ _ _ _ := 0

/-- A common count of one lets the kernel go through the first tile only. -/
theorem short_count_state (q : Nat → ℝ) :
    threePartState realExponential 64 1 1 65 (lastValue.crossK 0 0) (lastValue.crossV 0 0) (some (0, fun _ => false))
        (lastValue.tttK 0 0) (lastValue.tttV 0 0) 1 (lastValue.currK 0 0) (lastValue.currV 0 0) q 0 =
      threePartState realExponential 64 1 64 64 (lastValue.crossK 0 0) (lastValue.crossV 0 0) (some (0, fun _ => false))
        (lastValue.tttK 0 0) (lastValue.tttV 0 0) 1 (lastValue.currK 0 0) (lastValue.currV 0 0) q 0 := by
  have tiles : blocks 1 64 = blocks 64 64 := rfl
  have cross : State.loop realExponential false 1 64 (fun n => maskedLane headDim 1 q (decide (n < 65))
      (decide (n < 65)) (lastValue.crossK 0 0 n) (lastValue.crossV 0 0 n)) start =
      State.loop realExponential false 64 64 (fun n => maskedLane headDim 1 q (decide (n < 64))
        (decide (n < 64)) (lastValue.crossK 0 0 n) (lastValue.crossV 0 0 n)) start := by
    rw [State.loop, tiles, ← State.loop]
    apply State.loop_congr
    intro n inTile
    have early : n < 64 := inTile
    have before : n < 65 := by omega
    simp only [early, before]
  unfold threePartState
  dsimp only
  rw [cross]

/-- The kernel then gives the average of values that are zero. -/
theorem short_count_row :
    raggedThreePartRow realExponential 64 1 longLeaf 1 lastValue 0 0 0 0 = fin 0 := by
  have row (q : Nat → ℝ) := threePart_quotient realExponential 1 (by decide : 0 < 64)
    (by decide : 1 ≤ 64) le_rfl (lastValue.crossK 0 0) (lastValue.crossV 0 0)
    (.inl rfl : some (0, fun _ : Nat => false) = some (0, fun _ => false) ∨ _) (lastValue.tttK 0 0)
    (lastValue.tttV 0 0) 1 (lastValue.currK 0 0) (lastValue.currV 0 0) q 0 0
  simp only [← short_count_state] at row
  refine (row _).trans (congrArg fin ?_)
  apply softmax_zero
  intro key listed
  simp only [leafKeys, List.mem_append, List.mem_map, List.mem_filter, List.mem_range, keyOf,
    lastValue] at listed
  rcases listed with (⟨n, inside, rfl⟩ | ⟨t, -, rfl⟩) | ⟨s, -, rfl⟩
  · exact if_neg (by omega)
  · rfl
  · rfl

theorem long_leaf_row : ∃ share, 0 < share ∧
    threePartRow realExponential 64 1 (longLeaf.alone 0) (lastValue.alone 0 0) 0 0 0 0 = fin share := by
  have absent : (none : Option (Nat × (Nat → Bool))) = some (0, fun _ => false) ∨
      ((none : Option (Nat × (Nat → Bool))) = none ∧ 0 = 0) := .inr ⟨rfl, rfl⟩
  refine ⟨_, ?_, threePart_quotient realExponential 1 (by decide : 0 < 64) (by decide : 1 ≤ 65) le_rfl
    (lastValue.crossK 0 0) (lastValue.crossV 0 0) absent (lastValue.tttK 0 0) (lastValue.tttV 0 0) 1
    (lastValue.currK 0 0) (lastValue.currV 0 0) _ 0 0⟩
  refine softmax_pos realExponential (List.mem_append_left _ (List.mem_append_left _
    (List.mem_map_of_mem (List.mem_range.mpr (by decide : 64 < 65))))) ?_ ?_
  · simp [keyOf, lastValue]
  · intro key listed
    simp only [leafKeys, List.mem_append, List.mem_map, List.mem_filter, List.mem_range, keyOf,
      lastValue] at listed
    rcases listed with (⟨n, -, rfl⟩ | ⟨t, -, rfl⟩) | ⟨s, -, rfl⟩
    · dsimp only
      split
      · exact zero_le_one
      · exact le_rfl
    · exact le_rfl
    · exact le_rfl

/-- With a common count below the owner's length, a leaf does not get what its owner's cache
gives. -/
theorem short_count_differs : 0 < 1 ∧ 1 ≤ longLeaf.capacity ∧
    ¬LeavesMatchOwners realExponential 1 1 64 1 64 longLeaf 1 := by
  refine ⟨by decide, by decide, fun same => ?_⟩
  obtain ⟨out, launched, entries⟩ := same lastValue (fun _ => nan) (fun _ => nan)
  have entry := entries 0 (by decide) 0 (by decide) 0 (by decide) 0 (by decide)
  obtain rfl := Option.some_injective _ ((if_neg (by decide)).symm.trans launched)
  rw [rowLaunch_written _ _ _ _ _ _ (by decide) (by decide) (by decide) (by decide) (by decide)
    (by decide), threePartAttention, rowLaunch_written _ _ _ _ _ _ (by decide) (by decide) (by decide)
    (by decide) (by decide) (by decide), short_count_row] at entry
  obtain ⟨share, above, whole⟩ := long_leaf_row
  have zero : fin 0 = fin share := entry.trans whole
  rw [Ieee.fin.injEq] at zero
  exact above.ne zero

end instances

end SpecBlock.Attention
