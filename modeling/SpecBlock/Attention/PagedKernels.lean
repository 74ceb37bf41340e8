import SpecBlock.Attention.Tiles

/-!
# The draft's paged attention kernels

A query of a draft block attends to three groups of keys: the slots its request has in the
pool, which a table of slot numbers names, the slots of the block before that a mask allows,
and the slots of its own block up to its own. The dense path of the layer concatenates the
three, masks the scores and takes one softmax. The paged kernel runs through the three groups
one after the other with one running state, for one block of queries a program. The grouped
kernel does so for the queries of several leaves of a request, which share the request's slots.

The first two groups may be masked as a whole, and the updates there are guarded; the own
block is not guarded and has its first slot for every query. The paged kernel numbers its
queries with a range, whose length must be a power of two. The grouped kernel has one tile of
sixteen for the slots of the block before, so longer blocks lose what lies behind it. Nothing
else sets the kernels apart from the dense path.
-/

namespace SpecBlock.Attention

open Ieee OnlineSoftmax

universe u
variable {R : Type u}

/-- What both kernels are told of the requests: their sizes and their slots in the pool. The
mask, where there is one, shows the first slots of each request; without one all are shown. -/
structure Requests where
  requests : Nat
  heads : Nat
  groups : Nat
  slots : Nat
  crossCount : Nat
  crossMask : Option (Nat → Nat → Bool)
  counts : Nat → Nat
  heads_pos : 0 < heads
  counts_le : ∀ request < requests, counts request ≤ crossCount
  counted : ∀ request < requests, ∀ n < crossCount,
    (match crossMask with | some mask => mask request n | none => true) = decide (n < counts request)

/-- What the kernels read: queries and own keys by row of the flat batch, the pool by slot and
head, the table of slot numbers and the keys of the block before by request. -/
structure Contents (R : Type u) where
  q : Tensor4 R
  poolK : Nat → Nat → Nat → R
  poolV : Nat → Nat → Nat → R
  crossLoc : Nat → Nat → Nat
  tttK : Tensor4 R
  tttV : Tensor4 R
  currK : Tensor4 R
  currV : Tensor4 R
  scale : R

/-- What the layer hands over: in place of an empty pool, one slot that is masked. -/
def Requests.handed (sizes : Requests) : Requests :=
  if sizes.crossCount = 0 then
    { sizes with
      crossCount := 1
      crossMask := some (fun _ _ => false)
      counts := fun _ => 0
      counts_le := fun _ _ => Nat.zero_le _
      counted := fun _ _ _ _ => rfl }
  else sizes

/-- The table of slot numbers that goes with it. -/
def Contents.handed (contents : Contents R) (sizes : Requests) : Contents R :=
  if sizes.crossCount = 0 then { contents with crossLoc := fun _ _ => 0 } else contents

section keys

variable [Field R] (sizes : Requests) (contents : Contents R)

/-- The columns of a request's first slots in the pool. -/
def crossKeys (request head count : Nat) (q : Nat → R) : List (Key R Nat) :=
  (List.range count).map fun n => keyOf headDim contents.scale q
    (contents.poolK (contents.crossLoc request n) head)
    (contents.poolV (contents.crossLoc request n) head)

/-- The columns of the block before that a mask allows. -/
def tttKeys (request head count : Nat) (allowed : Nat → Bool) (q : Nat → R) : List (Key R Nat) :=
  ((List.range count).filter allowed).map fun t => keyOf headDim contents.scale q
    (contents.tttK request (head / sizes.groups) t) (contents.tttV request (head / sizes.groups) t)

/-- The columns of the own block up to a slot. -/
def currentKeys (row head slot : Nat) (q : Nat → R) : List (Key R Nat) :=
  ((List.range sizes.slots).filter (fun s => decide (s ≤ slot))).map fun s =>
    keyOf headDim contents.scale q
      (contents.currK row (head / sizes.groups) s) (contents.currV row (head / sizes.groups) s)

/-- The three groups of columns of a query. -/
def draftKeys (request row head slot tttCount : Nat) (allowed : Nat → Bool) : List (Key R Nat) :=
  let q := contents.q row head slot
  crossKeys contents request head (sizes.counts request) q ++
    tttKeys sizes contents request head tttCount allowed q ++
    currentKeys sizes contents row head slot q

end keys

section kernels

variable [Field R] [LinearOrder R] (e : R → R) (blockN blockM : Nat) (sizes : Requests)
  (contents : Contents R)

/-- The loop over a request's slots in the pool. -/
def crossLoop (request head : Nat) (valid : Bool) (q : Nat → R) (state : State R Nat) :
    State R Nat :=
  state.loop e true sizes.crossCount blockN fun n =>
    let nInBounds := decide (n < sizes.crossCount)
    let idx := if nInBounds then contents.crossLoc request n else 0
    let crossVis := match sizes.crossMask with
      | some mask => valid && (if nInBounds then mask request n else false) && nInBounds
      | none => valid && nInBounds
    maskedLane headDim contents.scale q nInBounds crossVis
      (contents.poolK idx head) (contents.poolV idx head)

/-- The loop over the block before. -/
def tttLoop (request head count size : Nat) (inBounds visible : Nat → Bool) (q : Nat → R)
    (state : State R Nat) : State R Nat :=
  state.loop e true count size fun t =>
    maskedLane headDim contents.scale q (inBounds t) (visible t)
      (contents.tttK request (head / sizes.groups) t) (contents.tttV request (head / sizes.groups) t)

/-- The loop over the own block. -/
def currentLoop (row head slot size : Nat) (inBounds : Nat → Bool) (q : Nat → R)
    (state : State R Nat) : State R Nat :=
  state.loop e false sizes.slots size fun s =>
    maskedLane headDim contents.scale q (inBounds s) (decide (s ≤ slot) && inBounds s)
      (contents.currK row (head / sizes.groups) s) (contents.currV row (head / sizes.groups) s)

/-- The row the paged kernel computes for a query; the block before may be absent. -/
def pagedRow (ttt : Option (Nat × (Nat → Nat → Bool))) (pidB pidH offsM d : Nat) : Ieee R :=
  let q := contents.q pidB pidH offsM
  let cross := crossLoop e blockN sizes contents pidB pidH true q start
  let previous := match ttt with
    | some (tttCount, mask) =>
      tttLoop e sizes contents pidB pidH tttCount blockN (fun t => decide (t < tttCount))
        (fun t => (if t < tttCount then mask pidB t else false) && decide (t < tttCount)) q cross
    | none => cross
  let state := currentLoop e sizes contents pidB pidH offsM blockN
    (fun s => decide (s < sizes.slots)) q previous
  state.acc d / state.l

/-- What one program of the paged kernel stores. -/
def threePartAttnPagedFwdKernel (ttt : Option (Nat × (Nat → Nat → Bool))) (pidB pidH : Nat) :
    List (Place × Ieee R) :=
  (List.range sizes.slots).flatMap fun offsM =>
    (List.range headDim).map fun d =>
      ((pidB, pidH, offsM, d), pagedRow e blockN sizes contents ttt pidB pidH offsM d)

/-- Whether a range has a length the kernel language allows. -/
def rangeAllowed (length : Nat) : Bool := 0 < length && 2 ^ Nat.log2 length == length

/-- The block before as the launch has it: absent unless it has slots. -/
def launchedTtt (ttt : Option (Nat × (Nat → Nat → Bool))) : Option (Nat × (Nat → Nat → Bool)) :=
  ttt.filter (fun given => 0 < given.1)

/-- Launch the paged kernel on a fresh output, unless it does not compile. -/
def threePartAttentionPaged (ttt : Option (Nat × (Nat → Nat → Bool))) (fresh : Place → Ieee R) :
    Option (Place → Ieee R) :=
  if rangeAllowed sizes.slots then
    some (Stores.store fresh ((List.range sizes.requests).flatMap fun pidB =>
      (List.range sizes.heads).flatMap fun pidH =>
        threePartAttnPagedFwdKernel e blockN sizes contents (launchedTtt ttt) pidB pidH))
  else none

/-- The slots of the tile the grouped kernel has for the block before. -/
def tttTile : Nat := 16

/-- The row the grouped kernel computes for a lane. -/
def groupedRow (leaves : Nat) (mask : Nat → Nat → Nat → Bool) (pidB pidH offsM d : Nat) : Ieee R :=
  let leaf := offsM / sizes.slots
  let qSlot := offsM - leaf * sizes.slots
  let qValid := decide (leaf < leaves)
  let flatB := pidB * leaves + leaf
  let q := loaded qValid (contents.q flatB pidH qSlot)
  let cross := crossLoop e blockN sizes contents pidB pidH qValid q start
  let slotValid := fun t => decide (t < sizes.slots)
  let previous := tttLoop e sizes contents pidB pidH tttTile tttTile slotValid
    (fun t => qValid && slotValid t && (if qValid && slotValid t then mask pidB leaf t else false))
    q cross
  -- the own block is gone through one slot at a time
  let state := currentLoop e sizes contents flatB pidH qSlot 1 (fun _ => qValid) q previous
  state.acc d / state.l

/-- What one program of the grouped kernel stores. -/
def groupedThreePartAttnPagedFwdKernel (leaves : Nat) (mask : Nat → Nat → Nat → Bool)
    (pidM pidB pidH : Nat) : List (Place × Ieee R) :=
  ((List.range blockM).map (fun lane => pidM * blockM + lane)).flatMap fun offsM =>
    let leaf := offsM / sizes.slots
    if leaf < leaves then
      (List.range headDim).map fun d =>
        ((pidB * leaves + leaf, pidH, offsM - leaf * sizes.slots, d),
          groupedRow e blockN sizes contents leaves mask pidB pidH offsM d)
    else []

/-- Launch the grouped kernel on a fresh output. -/
def groupedThreePartAttentionPaged (leaves : Nat) (mask : Nat → Nat → Nat → Bool)
    (fresh : Place → Ieee R) : Place → Ieee R :=
  Stores.store fresh ((List.range ((leaves * sizes.slots + blockM - 1) / blockM)).flatMap fun pidM =>
    (List.range sizes.requests).flatMap fun pidB =>
      (List.range sizes.heads).flatMap fun pidH =>
        groupedThreePartAttnPagedFwdKernel e blockN blockM sizes contents leaves mask pidM pidB pidH)

/-- The dense path's row: the three groups concatenated, the scores of the first two left where
the masks show them, the causal mask added to the scores of the own block, one softmax. -/
def denseRow (request row head slot tttCount : Nat) (allowed : Nat → Bool) (d : Nat) : Ieee R :=
  let q := contents.q row head slot
  let kvHead := head / sizes.groups
  let cross := (List.range sizes.crossCount).map fun n =>
    Lane.shown (match sizes.crossMask with | some mask => mask request n | none => true)
      (dot headDim q (contents.poolK (contents.crossLoc request n) head) * contents.scale)
      (contents.poolV (contents.crossLoc request n) head)
  let ttt := (List.range tttCount).map fun t =>
    Lane.shown (allowed t) (dot headDim q (contents.tttK request kvHead t) * contents.scale)
      (contents.tttV request kvHead t)
  let current := (List.range sizes.slots).map fun s =>
    (⟨fin (dot headDim q (contents.currK row kvHead s) * contents.scale) +
      (if slot < s then negInf else fin 0), contents.currV row kvHead s⟩ : Lane R Nat)
  average e (cross ++ ttt ++ current) d

end kernels

section agreement

variable [Field R] [LinearOrder R] (e : Exponential R) (blockN blockM : Nat) (sizes : Requests)

/-- The slots a launch has of the block before, and those a mask allows a row. -/
def tttCount (ttt : Option (Nat × (Nat → Nat → Bool))) : Nat := (ttt.map Prod.fst).getD 0

/-- The slots of the block before that a row may see. -/
def tttAllowed (ttt : Option (Nat × (Nat → Nat → Bool))) (row t : Nat) : Bool :=
  match ttt with
  | some (_, mask) => mask row t
  | none => false

/-- The paged kernel gives every query, whatever the contents, the softmax average of its three
groups of columns, and what the dense path gives. -/
def PagedAttends (ttt : Option (Nat × (Nat → Nat → Bool))) : Prop :=
  ∀ (contents : Contents R) (fresh : Place → Ieee R), ∃ out,
    threePartAttentionPaged e blockN sizes contents ttt fresh = some out ∧
    ∀ row < sizes.requests, ∀ head < sizes.heads, ∀ slot < sizes.slots, ∀ d < headDim,
      out (row, head, slot, d) =
        fin (softmax e (draftKeys sizes contents row row head slot (tttCount ttt) (tttAllowed ttt row)) d) ∧
      out (row, head, slot, d) =
        denseRow e sizes contents row row head slot (tttCount ttt) (tttAllowed ttt row) d

/-- So does the grouped kernel, each leaf being a row of its request. -/
def GroupedAttends (leaves : Nat) (mask : Nat → Nat → Nat → Bool) : Prop :=
  ∀ (contents : Contents R) (fresh : Place → Ieee R),
    ∀ request < sizes.requests, ∀ leaf < leaves, ∀ head < sizes.heads, ∀ slot < sizes.slots,
      ∀ d < headDim,
        groupedThreePartAttentionPaged e blockN blockM sizes contents leaves mask fresh
            (request * leaves + leaf, head, slot, d) =
          fin (softmax e (draftKeys sizes contents request (request * leaves + leaf) head slot
            sizes.slots (mask request leaf)) d) ∧
        groupedThreePartAttentionPaged e blockN blockM sizes contents leaves mask fresh
            (request * leaves + leaf, head, slot, d) =
          denseRow e sizes contents request (request * leaves + leaf) head slot sizes.slots
            (mask request leaf) d

end agreement

section dense

variable [Field R] {sizes : Requests} {contents : Contents R} {request row head slot d : Nat}

theorem shown_cross (here : request < sizes.requests) :
    (List.range sizes.crossCount).filter (fun n =>
      match sizes.crossMask with | some mask => mask request n | none => true) =
      List.range (sizes.counts request) := by
  rw [← range_filter_below (sizes.counts_le request here)]
  exact List.filter_congr (fun n member => sizes.counted request here n (List.mem_range.mp member))

theorem currentKeys_some (inside : slot < sizes.slots) (q : Nat → R) :
    currentKeys sizes contents row head slot q ≠ [] := by
  have listed : slot ∈ (List.range sizes.slots).filter (fun s => decide (s ≤ slot)) :=
    List.mem_filter.mpr ⟨List.mem_range.mpr inside, by simp⟩
  simp [currentKeys, List.ne_nil_of_mem listed]

/-- The dense path is the softmax average of the three groups. -/
theorem denseRow_eq [LinearOrder R] [IsStrictOrderedRing R] {e : Exponential R} {tttCount : Nat}
    {allowed : Nat → Bool} (here : request < sizes.requests) (inside : slot < sizes.slots) :
    denseRow e sizes contents request row head slot tttCount allowed d =
      fin (softmax e (draftKeys sizes contents request row head slot tttCount allowed) d) := by
  have causal (s : Nat) : (⟨fin (dot headDim (contents.q row head slot)
        (contents.currK row (head / sizes.groups) s) * contents.scale) +
        (if slot < s then negInf else fin 0), contents.currV row (head / sizes.groups) s⟩ : Lane R Nat) =
      Lane.shown (decide (s ≤ slot)) (dot headDim (contents.q row head slot)
        (contents.currK row (head / sizes.groups) s) * contents.scale)
        (contents.currV row (head / sizes.groups) s) := by
    rcases Nat.lt_or_ge slot s with later | earlier
    · simp [Lane.shown, later]
    · simp [Lane.shown, earlier, Nat.not_lt.mpr earlier]
  unfold denseRow
  dsimp only
  simp only [causal]
  rw [average_eq]
  · rw [keysOf_append, keysOf_append, keysOf_shown, keysOf_shown, keysOf_shown, shown_cross here]
    rfl
  · intro lane member
    simp only [List.mem_append, List.mem_map] at member
    rcases member with (⟨n, -, rfl⟩ | ⟨t, -, rfl⟩) | ⟨s, -, rfl⟩
    all_goals exact Lane.shown_clean _ _ _
  · rw [keysOf_append, keysOf_shown (List.range sizes.slots)]
    exact fun none => currentKeys_some inside (contents.q row head slot) (List.append_eq_nil_iff.mp none).2

end dense

section rows

variable [Field R] [LinearOrder R] (e : Exponential R) {blockN : Nat} (sizes : Requests)
  (contents : Contents R) {keys : List (Key R Nat)} {state : State R Nat} {request row slot : Nat}
  (head : Nat)

theorem crossLoop_adds (positive : 0 < blockN) (here : request < sizes.requests) (q : Nat → R)
    (represents : Represents e keys state) :
    Represents e (keys ++ crossKeys contents request head (sizes.counts request) q)
      (crossLoop e blockN sizes contents request head true q state) := by
  have vis (n : Nat) : (match sizes.crossMask with
        | some mask => true && (if decide (n < sizes.crossCount) then mask request n else false) &&
          decide (n < sizes.crossCount)
        | none => true && decide (n < sizes.crossCount)) =
      decide (n < sizes.counts request) := by
    by_cases inside : n < sizes.crossCount
    · have shown := sizes.counted request here n inside
      cases noMask : sizes.crossMask with
      | none => simpa [noMask, inside] using shown
      | some mask => simpa [noMask, inside] using shown
    · have beyond : ¬n < sizes.counts request := by
        have bound := sizes.counts_le request here
        omega
      cases noMask : sizes.crossMask with
      | none => simp [inside, beyond]
      | some mask => simp [inside, beyond]
  have within (n : Nat) (shown : decide (n < sizes.counts request) = true) : n < sizes.crossCount :=
    lt_of_lt_of_le (of_decide_eq_true shown) (sizes.counts_le request here)
  have loop := masked_guarded e headDim contents.scale q sizes.crossCount
    (fun n => decide (n < sizes.crossCount)) (fun n => decide (n < sizes.counts request))
    (fun n => contents.poolK (if decide (n < sizes.crossCount) then contents.crossLoc request n else 0) head)
    (fun n => contents.poolV (if decide (n < sizes.crossCount) then contents.crossLoc request n else 0) head)
    represents positive within (fun n shown => decide_eq_true (within n shown))
  have listed : ((List.range sizes.crossCount).filter (fun n => decide (n < sizes.counts request))).map
      (fun n => keyOf headDim contents.scale q
        (contents.poolK (if decide (n < sizes.crossCount) then contents.crossLoc request n else 0) head)
        (contents.poolV (if decide (n < sizes.crossCount) then contents.crossLoc request n else 0) head)) =
      crossKeys contents request head (sizes.counts request) q := by
    rw [range_filter_below (sizes.counts_le request here)]
    apply List.map_congr_left
    intro n member
    have inside := within n (decide_eq_true (List.mem_range.mp member))
    simp only [inside, decide_true, if_true]
  rw [listed] at loop
  unfold crossLoop
  simp only [vis]
  exact loop

theorem tttLoop_adds (request count : Nat) {size : Nat} (positive : 0 < size)
    (inBounds visible : Nat → Bool) (inside : ∀ t, visible t = true → t < count)
    (loads : ∀ t, visible t = true → inBounds t = true)
    (q : Nat → R) (represents : Represents e keys state) :
    Represents e (keys ++ tttKeys sizes contents request head count visible q)
      (tttLoop e sizes contents request head count size inBounds visible q state) :=
  masked_guarded e headDim contents.scale q count inBounds visible _ _ represents positive inside loads

/-- The loop over the own block adds the slots up to the query's own. -/
theorem currentLoop_adds (row : Nat) {size : Nat} (positive : 0 < size) (own : slot < sizes.slots)
    {inBounds : Nat → Bool} (loads : ∀ s < sizes.slots, inBounds s = true) (q : Nat → R)
    (represents : Represents e keys state) :
    Represents e (keys ++ currentKeys sizes contents row head slot q)
      (currentLoop e sizes contents row head slot size inBounds q state) := by
  have visible (s : Nat) : (decide (s ≤ slot) && inBounds s) = decide (s ≤ slot) := by
    by_cases early : s ≤ slot
    · simp [early, loads s (by omega)]
    · simp [early]
  have within (s : Nat) (shown : decide (s ≤ slot) = true) : s < sizes.slots :=
    lt_of_le_of_lt (of_decide_eq_true shown) own
  have loop := masked_first e headDim contents.scale q sizes.slots inBounds
    (fun s => decide (s ≤ slot)) (contents.currK row (head / sizes.groups))
    (contents.currV row (head / sizes.groups)) represents positive within
    (fun s shown => loads s (within s shown)) ⟨0, positive, by simp⟩
  unfold currentLoop
  simp only [visible]
  exact loop

theorem draftKeys_quotient [IsStrictOrderedRing R] {count : Nat} {allowed : Nat → Bool}
    (own : slot < sizes.slots) (d : Nat)
    (represents : Represents e (draftKeys sizes contents request row head slot count allowed) state) :
    state.acc d / state.l =
      fin (softmax e (draftKeys sizes contents request row head slot count allowed) d) := by
  refine represents.quotient e (fun none => ?_) d
  exact currentKeys_some own _ (List.append_eq_nil_iff.mp none).2

/-- The paged kernel's row is the average of its three groups. -/
theorem pagedRow_eq [IsStrictOrderedRing R] (positive : 0 < blockN) (here : row < sizes.requests)
    (own : slot < sizes.slots) (ttt : Option (Nat × (Nat → Nat → Bool))) (d : Nat) :
    pagedRow e blockN sizes contents (launchedTtt ttt) row head slot d =
      fin (softmax e (draftKeys sizes contents row row head slot (tttCount ttt) (tttAllowed ttt row)) d) := by
  have cross := crossLoop_adds e sizes contents head positive here
    (contents.q row head slot) Represents.empty
  rw [List.nil_append] at cross
  have loads (s : Nat) (inside : s < sizes.slots) : decide (s < sizes.slots) = true :=
    decide_eq_true inside
  have without {count : Nat} {allowed : Nat → Bool}
      (nothing : tttKeys sizes contents row head count allowed (contents.q row head slot) = []) :
      pagedRow e blockN sizes contents none row head slot d =
        fin (softmax e (draftKeys sizes contents row row head slot count allowed) d) := by
    have current := currentLoop_adds e sizes contents head row positive own loads
      (contents.q row head slot) cross
    refine draftKeys_quotient e sizes contents head own d ?_
    unfold draftKeys
    dsimp only
    rw [nothing, List.append_nil]
    exact current
  cases ttt with
  | none => exact without rfl
  | some given =>
    obtain ⟨count, mask⟩ := given
    rcases Nat.eq_zero_or_pos count with noSlots | some
    · have absent : launchedTtt (Option.some (count, mask)) = none := by simp [launchedTtt, noSlots]
      rw [absent]
      apply without
      simp [tttKeys, tttCount, noSlots]
    · have present : launchedTtt (Option.some (count, mask)) = Option.some (count, mask) := by
        simp [launchedTtt, some]
      rw [present]
      have previous := tttLoop_adds e sizes contents head row count positive
        (fun t => decide (t < count))
        (fun t => (if t < count then mask row t else false) && decide (t < count))
        (fun t shown => by simp at shown; exact shown.2) (fun t shown => by simp at shown; simp [shown.2])
        (contents.q row head slot) cross
      have current := currentLoop_adds e sizes contents head row positive own loads
        (contents.q row head slot) previous
      have listed : tttKeys sizes contents row head count
          (fun t => (if t < count then mask row t else false) && decide (t < count))
          (contents.q row head slot) =
          tttKeys sizes contents row head count (mask row) (contents.q row head slot) := by
        unfold tttKeys
        congr 1
        apply List.filter_congr
        intro t member
        simp [List.mem_range.mp member]
      rw [listed] at current
      exact draftKeys_quotient e sizes contents head own d current

/-- The grouped kernel's row is the average of its three groups, the block before cut off at
the end of the tile it has. -/
theorem groupedRow_eq [IsStrictOrderedRing R] (positive : 0 < blockN) (here : request < sizes.requests)
    {leaf leaves : Nat} (inside : leaf < leaves) (own : slot < sizes.slots)
    (mask : Nat → Nat → Nat → Bool) (d : Nat) :
    groupedRow e blockN sizes contents leaves mask request head (leaf * sizes.slots + slot) d =
      fin (softmax e (draftKeys sizes contents request (request * leaves + leaf) head slot sizes.slots
        (fun t => decide (t < tttTile) && mask request leaf t)) d) := by
  have some : 0 < sizes.slots := by omega
  have isLeaf : (leaf * sizes.slots + slot) / sizes.slots = leaf := by
    rw [Nat.mul_comm, Nat.mul_add_div some, Nat.div_eq_of_lt own, Nat.add_zero]
  have cross := crossLoop_adds e sizes contents head positive here
    (contents.q (request * leaves + leaf) head slot) Represents.empty
  rw [List.nil_append] at cross
  have previous := tttLoop_adds e sizes contents head request tttTile (by decide : 0 < tttTile)
    (fun t => decide (t < sizes.slots))
    (fun t => decide (t < tttTile) && (decide (t < sizes.slots) && mask request leaf t))
    (fun t shown => by simp at shown; exact shown.1) (fun t shown => by simp at shown; simp [shown.2.1])
    (contents.q (request * leaves + leaf) head slot) cross
  have valid : decide (leaf < leaves) = true := decide_eq_true inside
  have current := currentLoop_adds e sizes contents head (request * leaves + leaf) Nat.one_pos own
    (fun s _ => valid) (contents.q (request * leaves + leaf) head slot) previous
  have listed : tttKeys sizes contents request head tttTile
      (fun t => decide (t < tttTile) && (decide (t < sizes.slots) && mask request leaf t))
      (contents.q (request * leaves + leaf) head slot) =
      tttKeys sizes contents request head sizes.slots
        (fun t => decide (t < tttTile) && mask request leaf t)
        (contents.q (request * leaves + leaf) head slot) := by
    unfold tttKeys
    congr 1
    rw [← range_filter_swap tttTile sizes.slots]
    apply List.filter_congr
    intro t member
    simp [List.mem_range.mp member]
  rw [listed] at current
  refine Eq.trans ?_ (draftKeys_quotient e sizes contents head own d current)
  have tile : tttLoop e sizes contents request head tttTile tttTile (fun t => decide (t < sizes.slots))
      (fun t => decide (leaf < leaves) && decide (t < sizes.slots) &&
        (if decide (leaf < leaves) && decide (t < sizes.slots) then mask request leaf t else false))
      (contents.q (request * leaves + leaf) head slot)
      (crossLoop e blockN sizes contents request head true
        (contents.q (request * leaves + leaf) head slot) start) =
      tttLoop e sizes contents request head tttTile tttTile (fun t => decide (t < sizes.slots))
        (fun t => decide (t < tttTile) && (decide (t < sizes.slots) && mask request leaf t))
        (contents.q (request * leaves + leaf) head slot)
        (crossLoop e blockN sizes contents request head true
          (contents.q (request * leaves + leaf) head slot) start) := by
    apply State.loop_congr
    intro t early
    have before : t < tttTile := early
    by_cases stored : t < sizes.slots
    · simp [valid, before, stored]
    · simp [before, stored]
  unfold groupedRow
  dsimp only
  rw [isLeaf, Nat.add_sub_cancel_left, valid, loaded_inside rfl]
  rw [valid] at tile
  rw [tile]

end rows

section launches

variable [Field R] [LinearOrder R] (e : R → R) {blockN blockM : Nat} (sizes : Requests)
  (contents : Contents R) {row head slot d : Nat}

theorem rangeAllowed_iff {length : Nat} : rangeAllowed length = true ↔ ∃ power, length = 2 ^ power := by
  simp only [rangeAllowed, Bool.and_eq_true, decide_eq_true_eq, beq_iff_eq]
  constructor
  · rintro ⟨-, whole⟩
    exact ⟨_, whole.symm⟩
  · rintro ⟨power, rfl⟩
    exact ⟨Nat.two_pow_pos power, by rw [Nat.log2_two_pow]⟩

theorem paged_written (ttt : Option (Nat × (Nat → Nat → Bool))) (fresh : Place → Ieee R)
    (here : row < sizes.requests) (inHeads : head < sizes.heads) (own : slot < sizes.slots)
    (channel : d < headDim) :
    Stores.store fresh ((List.range sizes.requests).flatMap fun pidB =>
      (List.range sizes.heads).flatMap fun pidH =>
        threePartAttnPagedFwdKernel e blockN sizes contents ttt pidB pidH) (row, head, slot, d) =
      pagedRow e blockN sizes contents ttt row head slot d := by
  apply Stores.store_value
  · simp only [threePartAttnPagedFwdKernel, List.mem_flatMap, List.mem_map, List.mem_range]
    exact ⟨row, here, head, inHeads, slot, own, d, channel, rfl⟩
  · intro entry stored same
    simp only [threePartAttnPagedFwdKernel, List.mem_flatMap, List.mem_map, List.mem_range] at stored
    obtain ⟨pidB, -, pidH, -, offsM, -, channelOf, -, rfl⟩ := stored
    obtain ⟨rfl, rfl, rfl, rfl⟩ : pidB = row ∧ pidH = head ∧ offsM = slot ∧ channelOf = d := by
      simpa using same
    rfl

theorem flat_row {request other leaf index leaves : Nat} (inside : leaf < leaves)
    (bound : index < leaves) (same : other * leaves + index = request * leaves + leaf) :
    other = request ∧ index = leaf := by
  have quotient := congrArg (· / leaves) same
  have some : 0 < leaves := by omega
  simp only [Nat.mul_comm _ leaves, Nat.mul_add_div some, Nat.div_eq_of_lt inside,
    Nat.div_eq_of_lt bound, Nat.add_zero] at quotient
  obtain rfl := quotient
  exact ⟨rfl, by omega⟩

theorem grouped_written (positive : 0 < blockM) {request leaf leaves : Nat}
    (mask : Nat → Nat → Nat → Bool) (fresh : Place → Ieee R) (here : request < sizes.requests)
    (inside : leaf < leaves) (inHeads : head < sizes.heads) (own : slot < sizes.slots)
    (channel : d < headDim) :
    groupedThreePartAttentionPaged e blockN blockM sizes contents leaves mask fresh
        (request * leaves + leaf, head, slot, d) =
      groupedRow e blockN sizes contents leaves mask request head (leaf * sizes.slots + slot) d := by
  have some : 0 < sizes.slots := by omega
  have isLeaf : (leaf * sizes.slots + slot) / sizes.slots = leaf := by
    rw [Nat.mul_comm, Nat.mul_add_div some, Nat.div_eq_of_lt own, Nat.add_zero]
  apply Stores.store_value
  · simp only [groupedThreePartAttnPagedFwdKernel, List.mem_flatMap, List.mem_map, List.mem_range]
    have whole := Nat.div_add_mod (leaf * sizes.slots + slot) blockM
    rw [Nat.mul_comm] at whole
    have lane := Nat.mod_lt (leaf * sizes.slots + slot) positive
    have last : leaf * sizes.slots + slot < leaves * sizes.slots := by
      have next := Nat.mul_le_mul_right sizes.slots (Nat.succ_le_of_lt inside)
      rw [Nat.succ_mul] at next
      omega
    refine ⟨_, row_tile blockM _ positive last, request, here, head, inHeads, leaf * sizes.slots + slot,
      ⟨_, lane, whole⟩, ?_⟩
    rw [isLeaf, if_pos inside, Nat.add_sub_cancel_left]
    exact List.mem_map.mpr ⟨d, List.mem_range.mpr channel, rfl⟩
  · intro entry stored same
    simp only [groupedThreePartAttnPagedFwdKernel, List.mem_flatMap, List.mem_range] at stored
    obtain ⟨pidM, -, pidB, -, pidH, -, offsM, -, member⟩ := stored
    split at member
    case isFalse => simp at member
    case isTrue bound =>
      obtain ⟨channelOf, -, rfl⟩ := List.mem_map.mp member
      obtain ⟨sameRow, rfl, sameSlot, rfl⟩ : pidB * leaves + offsM / sizes.slots =
          request * leaves + leaf ∧ pidH = head ∧ offsM - offsM / sizes.slots * sizes.slots = slot ∧
          channelOf = d := by
        simpa using same
      obtain ⟨rfl, rfl⟩ := flat_row inside bound sameRow
      have whole := Nat.div_mul_le_self offsM sizes.slots
      have isOffset : offsM = offsM / sizes.slots * sizes.slots + slot := by omega
      exact congrArg (fun offset => groupedRow e blockN sizes contents leaves mask pidB pidH offset channelOf)
        isOffset

end launches

section verdict

variable [Field R] [LinearOrder R] [IsStrictOrderedRing R] (e : Exponential R) {blockN blockM : Nat}
  (sizes : Requests)

/-- The paged kernel attends to the right columns whenever it compiles. -/
theorem pagedAttends_iff (positive : 0 < blockN) (ttt : Option (Nat × (Nat → Nat → Bool))) :
    PagedAttends e blockN sizes ttt ↔ ∃ power, sizes.slots = 2 ^ power := by
  rw [← rangeAllowed_iff]
  constructor
  · intro attends
    obtain ⟨out, launched, -⟩ := attends ⟨fun _ _ _ _ => 0, fun _ _ _ => 0, fun _ _ _ => 0, fun _ _ => 0,
      fun _ _ _ _ => 0, fun _ _ _ _ => 0, fun _ _ _ _ => 0, fun _ _ _ _ => 0, 0⟩ (fun _ => nan)
    by_contra refused
    simp [threePartAttentionPaged, refused] at launched
  · intro allowed contents fresh
    refine ⟨_, if_pos allowed, fun row here head inHeads slot own d channel => ?_⟩
    rw [paged_written e sizes contents _ fresh here inHeads own channel,
      pagedRow_eq e sizes contents head positive here own ttt d, denseRow_eq here own]
    exact ⟨rfl, rfl⟩

/-- Contents whose values are zero, except for one slot of the block before. -/
def oneSlot (chosen : Nat) : Contents R where
  q _ _ _ _ := 0
  poolK _ _ _ := 0
  poolV _ _ _ := 0
  crossLoc _ _ := 0
  tttK _ _ _ _ := 0
  tttV _ _ t _ := if t = chosen then 1 else 0
  currK _ _ _ _ := 0
  currV _ _ _ _ := 0
  scale := 0

theorem oneSlot_average (request row head slot d chosen : Nat) (allowed : Nat → Bool) :
    softmax e (draftKeys sizes (oneSlot chosen : Contents R) request row head slot sizes.slots allowed) d ≠ 0 ↔
      chosen < sizes.slots ∧ allowed chosen = true := by
  have member {key : Key R Nat}
      (listed : key ∈ draftKeys sizes (oneSlot chosen : Contents R) request row head slot sizes.slots allowed) :
      key.value d = 0 ∨ (key.value d = 1 ∧ chosen < sizes.slots ∧ allowed chosen = true) := by
    simp only [draftKeys, crossKeys, tttKeys, currentKeys, keyOf, oneSlot, List.mem_append, List.mem_map,
      List.mem_filter, List.mem_range] at listed
    rcases listed with (⟨n, -, rfl⟩ | ⟨t, ⟨inside, allows⟩, rfl⟩) | ⟨s, -, rfl⟩
    · exact .inl rfl
    · by_cases isChosen : t = chosen
      · subst isChosen
        exact .inr ⟨if_pos rfl, inside, allows⟩
      · exact .inl (if_neg isChosen)
    · exact .inl rfl
  constructor
  · intro nonzero
    by_contra unseen
    exact nonzero (softmax_zero e (fun key listed => (member listed).resolve_right (fun seen => unseen seen.2)))
  · rintro ⟨inside, allows⟩
    have listed : keyOf headDim 0 (fun _ => 0) (fun _ => 0) (fun _ => 1) ∈
        draftKeys sizes (oneSlot chosen : Contents R) request row head slot sizes.slots allowed := by
      refine List.mem_append_left _ (List.mem_append_right _ (List.mem_map.mpr ⟨chosen, ?_, ?_⟩))
      · exact List.mem_filter.mpr ⟨List.mem_range.mpr inside, allows⟩
      · simp [oneSlot]
    refine (softmax_pos e listed ?_ ?_).ne'
    · exact one_pos
    · intro key isListed
      rcases member isListed with zero | ⟨one, -⟩
      · exact zero.ge
      · rw [one]
        exact zero_le_one

/-- The grouped kernel attends to the right columns exactly when no leaf may see a slot of the
block before that lies behind the tile. -/
theorem groupedAttends_iff (positiveN : 0 < blockN) (positiveM : 0 < blockM) (leaves : Nat)
    (mask : Nat → Nat → Nat → Bool) :
    GroupedAttends e blockN blockM sizes leaves mask ↔
      ∀ request < sizes.requests, ∀ leaf < leaves, ∀ t < sizes.slots, tttTile ≤ t →
        mask request leaf t = false := by
  constructor
  · intro attends request here leaf inside t stored behind
    have own : 0 < sizes.slots := by omega
    have entry := (attends (oneSlot t) (fun _ => nan) request here leaf inside 0 sizes.heads_pos 0 own 0
      (by decide)).1
    rw [grouped_written e sizes _ positiveM mask _ here inside sizes.heads_pos own (by decide),
      groupedRow_eq e sizes _ 0 positiveN here inside own mask 0, Ieee.fin.injEq] at entry
    have cut := oneSlot_average e sizes request (request * leaves + leaf) 0 0 0 t
      (fun t => decide (t < tttTile) && mask request leaf t)
    have whole := oneSlot_average e sizes request (request * leaves + leaf) 0 0 0 t (mask request leaf)
    rw [entry, whole] at cut
    by_contra visible
    have early := (cut.mp ⟨stored, by simpa using visible⟩).2
    simp [Nat.not_lt.mpr behind] at early
  · intro hidden contents fresh request here leaf inside head inHeads slot own d channel
    rw [grouped_written e sizes contents positiveM mask fresh here inside inHeads own channel,
      groupedRow_eq e sizes contents head positiveN here inside own mask d, denseRow_eq here own]
    have same : (List.range sizes.slots).filter (fun t => decide (t < tttTile) && mask request leaf t) =
        (List.range sizes.slots).filter (mask request leaf) := by
      apply List.filter_congr
      intro t member
      rcases Nat.lt_or_ge t tttTile with early | behind
      · simp [early]
      · simp [hidden request here leaf inside t (List.mem_range.mp member) behind]
    have keys : draftKeys sizes contents request (request * leaves + leaf) head slot sizes.slots
        (fun t => decide (t < tttTile) && mask request leaf t) =
        draftKeys sizes contents request (request * leaves + leaf) head slot sizes.slots
          (mask request leaf) := by
      unfold draftKeys tttKeys
      rw [same]
    rw [keys]
    exact ⟨rfl, rfl⟩

end verdict

/-- The masked slot in place of an empty pool adds no column. -/
theorem draftKeys_handed [Field R] (sizes : Requests) (contents : Contents R) {request : Nat}
    (here : request < sizes.requests) (row head slot count : Nat) (allowed : Nat → Bool) :
    draftKeys sizes.handed (contents.handed sizes) request row head slot count allowed =
      draftKeys sizes contents request row head slot count allowed := by
  by_cases empty : sizes.crossCount = 0
  · have none : sizes.counts request = 0 := by
      have bound := sizes.counts_le request here
      omega
    simp [draftKeys, crossKeys, tttKeys, currentKeys, Requests.handed, Contents.handed, empty, none]
  · simp [Requests.handed, Contents.handed, empty]

/-- Whatever the tiles, the paged kernel attends to the right columns exactly when the length of
a block is a power of two, the grouped kernel exactly when no leaf may see a slot of the block
before that lies behind its tile of sixteen, and an empty pool handed over as one masked slot
leaves the columns as they are. -/
theorem draft_kernels_attend_iff [Field R] [LinearOrder R] [IsStrictOrderedRing R]
    (e : Exponential R) (blockN blockM : Nat) (positiveN : 0 < blockN) (positiveM : 0 < blockM)
    (sizes : Requests) :
    (∀ ttt, PagedAttends e blockN sizes ttt ↔ ∃ power, sizes.slots = 2 ^ power) ∧
    (∀ leaves mask, GroupedAttends e blockN blockM sizes leaves mask ↔
      ∀ request < sizes.requests, ∀ leaf < leaves, ∀ t < sizes.slots, tttTile ≤ t →
        mask request leaf t = false) ∧
    ∀ (contents : Contents R), ∀ request < sizes.requests, ∀ row head slot count allowed,
      draftKeys sizes.handed (contents.handed sizes) request row head slot count allowed =
        draftKeys sizes contents request row head slot count allowed := by
  refine ⟨fun ttt => ?_, fun leaves mask => ?_, fun contents request here => ?_⟩
  · exact pagedAttends_iff e sizes positiveN ttt
  · exact groupedAttends_iff e sizes positiveN positiveM leaves mask
  · exact draftKeys_handed sizes contents here

/-- Three requests with blocks of thirty-two slots, and pools of none, of five and of seventy
columns under a mask. -/
def raggedBlocks : Requests where
  requests := 3
  heads := 32
  groups := 8
  slots := 32
  crossCount := 70
  crossMask := some (fun request n => decide (n < [0, 5, 70].getD request 0))
  counts request := [0, 5, 70].getD request 0
  heads_pos := by decide
  counts_le := by decide
  counted _ _ _ _ := rfl

/-- Both kernels are good for these requests while the masks stay within the tile of sixteen. -/
theorem draft_kernels_attend_iff_ragged :
    PagedAttends realExponential 64 raggedBlocks (some (32, fun _ t => decide (t ≤ 3))) ∧
      GroupedAttends realExponential 64 16 raggedBlocks 2 (fun _ leaf t => decide (t ≤ leaf)) := by
  obtain ⟨paged, grouped, -⟩ := draft_kernels_attend_iff realExponential 64 16 (by decide) (by decide) raggedBlocks
  refine ⟨(paged _).mpr ⟨5, rfl⟩, (grouped 2 _).mpr ?_⟩
  intro request _ leaf listed t _ far
  have wide : 16 ≤ t := far
  exact decide_eq_false (by omega)

/-- One request with nothing in the pool and blocks of seventeen slots. -/
def longBlocks : Requests where
  requests := 1
  heads := 1
  groups := 1
  slots := 17
  crossCount := 0
  crossMask := none
  counts _ := 0
  heads_pos := by decide
  counts_le _ _ := Nat.le_refl 0
  counted _ _ _ inside := absurd inside (Nat.not_lt_zero _)

/-- A leaf that may see the seventeenth slot of the block before does not attend to it. -/
theorem seventeenth_slot_lost :
    ¬GroupedAttends realExponential 64 16 longBlocks 1 (fun _ _ t => t == 16) := by
  rw [groupedAttends_iff realExponential longBlocks (by decide) (by decide)]
  intro hidden
  exact absurd (hidden 0 (by decide) 0 (by decide) 16 (by decide) (by decide)) (by decide)

end SpecBlock.Attention
