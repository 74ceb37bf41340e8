import SpecBlock.Attention.Tiles
import Mathlib.Analysis.Real.Sqrt

/-!
# The target's tree attention and the one it replaces

The target's forward may use a kernel of its own for few queries, and hands the others over
to the library's attention. The kernel goes through the columns in tiles of sixty-four. A
mask is added to the scores and is zero or minus infinity; without one only the columns past
the end are masked. The library's attention is a parameter that computes the softmax average
of the columns a query sees; without a mask several queries see causally.

The kernel's update is not guarded. A query that sees nothing in the first tile therefore
gets no number, whatever it sees later, and so does one that sees nothing at all, for which
the kernel's comment promises zero. Nor does the kernel know that several queries without a
mask are causal. The two agree otherwise.
-/

namespace SpecBlock.Attention

open Ieee OnlineSoftmax

universe u
variable {R : Type u}

/-- The sizes of queries, keys and values. -/
structure Shape where
  B : Nat
  Hq : Nat
  Hkv : Nat
  Q : Nat
  KV : Nat
  D : Nat
  deriving DecidableEq, Repr

/-- The arguments of an attention. -/
structure Arguments (R : Type u) where
  q : Tensor4 R
  k : Tensor4 R
  v : Tensor4 R

/-- What is added to the scores, by query and column. -/
abbrev Mask (R : Type u) := Nat → Nat → Ieee R

/-- A returned tensor: its sizes and its entries. -/
structure Output (R : Type u) where
  sizes : List Nat
  entry : Tensor4 (Ieee R)

/-- The first two inner axes swapped. -/
def Output.transpose (output : Output R) (B Hq Q D : Nat) : Output R :=
  ⟨[B, Q, Hq, D], fun b i h d => output.entry b h i d⟩

section kernel

variable [Field R] [LinearOrder R] (e : R → R) (shape : Shape) (call : Arguments R)
  (mask : Option (Mask R)) (scale : R)

/-- A column of a tile for one query. -/
def targetLane (pidB pidH offsQ offsN : Nat) : Lane R Nat :=
  let pidHkv := pidH / (shape.Hq / shape.Hkv)
  let qInBounds := decide (offsQ < shape.Q)
  let nInBounds := decide (offsN < shape.KV)
  let q := loaded qInBounds (call.q pidB pidH offsQ)
  let k := loaded nInBounds (call.k pidB pidHkv offsN)
  let v := loaded nInBounds (call.v pidB pidHkv offsN)
  let qk := dot shape.D q k * scale
  match mask with
  | some bias => ⟨fin qk + (if qInBounds && nInBounds then bias offsQ offsN else negInf), v⟩
  | none => ⟨if nInBounds then fin qk else negInf, v⟩

/-- The columns of a tile. -/
def blockN : Nat := 64

/-- The state of a query after every tile. -/
def targetState (pidB pidH offsQ : Nat) : State R Nat :=
  State.loop e false shape.KV blockN (targetLane shape call mask scale pidB pidH offsQ) start

/-- The row of a query: the weighted sum over the sum, which one replaces unless positive. -/
def targetRow (pidB pidH offsQ d : Nat) : Ieee R :=
  let state := targetState e shape call mask scale pidB pidH offsQ
  let lSafe := if state.l.isPositive then state.l else fin 1
  state.acc d / lSafe

/-- What one program stores: the rows of its queries. -/
def targetTreeAttnFwdKernel (blockM pidM pidB pidH : Nat) : List (Place × Ieee R) :=
  rowProgram blockM shape.Q shape.D (targetRow e shape call mask scale) pidM pidB pidH

/-- What all programs of the grid store. -/
def targetStores (blockM : Nat) : List (Place × Ieee R) :=
  (List.range ((shape.Q + blockM - 1) / blockM)).flatMap fun pidM =>
    (List.range shape.B).flatMap fun pidB =>
      (List.range shape.Hq).flatMap fun pidH =>
        targetTreeAttnFwdKernel e shape call mask scale blockM pidM pidB pidH

/-- Launch the kernel on a fresh output, unless an assertion on the sizes fails. -/
def treeAttentionTarget (fresh : Place → Ieee R) : Option (Output R) :=
  if shape.D = 128 ∧ shape.Hq % shape.Hkv = 0 then
    let blockM := if shape.Q ≤ 16 then 16 else 32
    let written := Stores.store fresh (targetStores e shape call mask scale blockM)
    some ⟨[shape.B, shape.Hq, shape.Q, shape.D], fun b h i d => written (b, h, i, d)⟩
  else none

/-- The library's attention: it has a mask or none, and a scaling or its own. -/
abbrev Sdpa (R : Type u) := Shape → Arguments R → Option (Mask R) → Option R → Output R

/-- The attention the target's forward calls: many queries or a batch fall back. -/
def tritonTreeAttentionForward (sqrt : R → R) (threshold : Nat) (sdpa : Sdpa R)
    (scaling : Option R) (fresh : Place → Ieee R) : Option (Output R) :=
  if threshold < shape.Q ∨ shape.B ≠ 1 then some (sdpa shape call mask scaling)
  else
    let scale := scaling.getD (1 / sqrt shape.D)
    (treeAttentionTarget e shape call mask scale fresh).map
      (fun out => out.transpose shape.B shape.Hq shape.Q shape.D)

end kernel

section agreement

variable [Field R] [LinearOrder R]

/-- Zero or minus infinity is added to every score. -/
def Additive (shape : Shape) (mask : Option (Mask R)) : Prop :=
  ∀ bias ∈ mask, ∀ i < shape.Q, ∀ n < shape.KV, bias i n = fin 0 ∨ bias i n = negInf

/-- Whether a query sees a column: a mask says so, and several queries without one are causal. -/
def sees (shape : Shape) (mask : Option (Mask R)) (i n : Nat) : Bool :=
  match mask with
  | some bias => bias i n = fin 0
  | none => shape.Q ≤ 1 || n ≤ i

/-- The columns that some of them see, with their scores and values. -/
def keys (shape : Shape) (call : Arguments R) (scale : R) (h i : Nat) (seen : Nat → Bool) :
    List (Key R Nat) :=
  ((List.range shape.KV).filter seen).map fun n =>
    let kvHead := h / (shape.Hq / shape.Hkv)
    ⟨dot shape.D (call.q 0 h i) (call.k 0 kvHead n) * scale, call.v 0 kvHead n⟩

/-- What is known of the library's attention on one sequence. -/
structure Documented (e : Exponential R) (sqrt : R → R) (sdpa : Sdpa R) : Prop where
  sizes : ∀ shape call mask scaling,
    (sdpa shape call mask scaling).sizes = [shape.B, shape.Q, shape.Hq, shape.D]
  average : ∀ shape call mask scaling, shape.B = 1 → Additive shape mask →
    ∀ h < shape.Hq, ∀ i < shape.Q, ∀ d < shape.D,
      (∃ n < shape.KV, sees shape mask i n = true) →
        (sdpa shape call mask scaling).entry 0 i h d = fin (softmax e
          (keys shape call (scaling.getD (1 / sqrt shape.D)) h i (sees shape mask i)) d)

/-- The forward is a replacement for the library's attention on every content: the output has
the same sizes, the same entries for queries that see a column, and zeros where the kernel
computes a query that sees none. -/
def DropsIn (e : Exponential R) (sqrt : R → R) (threshold : Nat) (sdpa : Sdpa R) (shape : Shape)
    (mask : Option (Mask R)) (scaling : Option R) : Prop :=
  ∀ (call : Arguments R) (fresh : Place → Ieee R), ∃ out,
    tritonTreeAttentionForward e shape call mask sqrt threshold sdpa scaling fresh = some out ∧
    out.sizes = (sdpa shape call mask scaling).sizes ∧
    ∀ h < shape.Hq, ∀ i < shape.Q, ∀ d < shape.D,
      ((∃ n < shape.KV, sees shape mask i n = true) →
        out.entry 0 i h d = (sdpa shape call mask scaling).entry 0 i h d) ∧
      (shape.Q ≤ threshold → (∀ n < shape.KV, sees shape mask i n = false) →
        out.entry 0 i h d = fin 0)

/-- The calls the replacement is good for: those that fall back, and those of the kernel's
head size whose queries each see a column of the first tile, or need no causal mask. -/
def Clear (threshold : Nat) (shape : Shape) (mask : Option (Mask R)) : Prop :=
  threshold < shape.Q ∨ (shape.D = 128 ∧
    match mask with
    | some bias => ∀ i < shape.Q, shape.KV = 0 ∨ ∃ n < shape.KV, n < blockN ∧ bias i n = fin 0
    | none => shape.Q ≤ 1 ∨ shape.KV ≤ 1)

end agreement

section launch

variable [Field R] [LinearOrder R] {e : R → R} {shape : Shape} {call : Arguments R}
  {mask : Option (Mask R)} {scale : R}

theorem forward_kernel (e : R → R) (call : Arguments R) (mask : Option (Mask R)) (sqrt : R → R)
    (sdpa : Sdpa R) (scaling : Option R) (fresh : Place → Ieee R) {threshold : Nat}
    (few : shape.Q ≤ threshold) (one : shape.B = 1)
    (channels : shape.D = 128) (grouped : shape.Hq % shape.Hkv = 0) :
    ∃ out, tritonTreeAttentionForward e shape call mask sqrt threshold sdpa scaling fresh = some out ∧
      out.sizes = [shape.B, shape.Q, shape.Hq, shape.D] ∧
      ∀ h < shape.Hq, ∀ i < shape.Q, ∀ d < shape.D, out.entry 0 i h d =
        targetRow e shape call mask (scaling.getD (1 / sqrt shape.D)) 0 h i d := by
  have here : ¬(threshold < shape.Q ∨ shape.B ≠ 1) := by omega
  rw [tritonTreeAttentionForward, if_neg here]
  dsimp only
  rw [treeAttentionTarget, if_pos ⟨channels, grouped⟩]
  refine ⟨_, rfl, rfl, fun h head i row d channel => ?_⟩
  have positive : 0 < (if shape.Q ≤ 16 then 16 else 32) := by split <;> omega
  exact rowLaunch_written _ _ _ _ _ _ positive (row_tile _ _ positive row) (by omega) head row channel
    fresh

end launch

section rows

variable [Field R] [LinearOrder R] {shape : Shape} {mask : Option (Mask R)} {i : Nat}

/-- Whether the kernel leaves a column's score: inside the end, and the mask adds zero. -/
def kept (shape : Shape) (mask : Option (Mask R)) (i n : Nat) : Bool :=
  decide (n < shape.KV) && (match mask with
    | some bias => decide (bias i n = fin 0)
    | none => true)

theorem kept_inside {n : Nat} (isKept : kept shape mask i n = true) : n < shape.KV := by
  simp only [kept, Bool.and_eq_true, decide_eq_true_eq] at isKept
  exact isKept.1

theorem targetLane_eq (additive : Additive shape mask) (row : i < shape.Q) (call : Arguments R)
    (scale : R) (h n : Nat) :
    targetLane shape call mask scale 0 h i n = Lane.shown (kept shape mask i n)
      (dot shape.D (call.q 0 h i)
        (loaded (decide (n < shape.KV)) (call.k 0 (h / (shape.Hq / shape.Hkv)) n)) * scale)
      (loaded (decide (n < shape.KV)) (call.v 0 (h / (shape.Hq / shape.Hkv)) n)) := by
  have query : loaded (decide (i < shape.Q)) (call.q 0 h i) = call.q 0 h i := by
    funext d
    simp [loaded, row]
  unfold targetLane
  dsimp only
  rw [query]
  cases mask with
  | none => simp [Lane.shown, kept]
  | some bias =>
    by_cases inside : n < shape.KV
    · rcases additive bias rfl i row n inside with zero | masked
      · simp [Lane.shown, kept, row, inside, zero]
      · simp [Lane.shown, kept, row, inside, masked]
    · simp [Lane.shown, kept, inside]

theorem kept_keys (call : Arguments R) (scale : R) (h : Nat) :
    ((List.range shape.KV).filter (kept shape mask i)).map (fun n => (⟨dot shape.D (call.q 0 h i)
        (loaded (decide (n < shape.KV)) (call.k 0 (h / (shape.Hq / shape.Hkv)) n)) * scale,
        loaded (decide (n < shape.KV)) (call.v 0 (h / (shape.Hq / shape.Hkv)) n)⟩ : Key R Nat)) =
      keys shape call scale h i (kept shape mask i) := by
  apply List.map_congr_left
  intro n member
  have inside : n < shape.KV := List.mem_range.mp (List.mem_of_mem_filter member)
  have whole (x : Nat → R) : loaded (decide (n < shape.KV)) x = x := by
    funext d
    simp [loaded, inside]
  rw [whole, whole]

/-- A row of no column, or with a column left in the first tile, is the average of those left. -/
theorem targetRow_average [IsStrictOrderedRing R] {e : Exponential R} (additive : Additive shape mask)
    (row : i < shape.Q)
    (first : shape.KV = 0 ∨ ∃ n, n < blockN ∧ kept shape mask i n = true) (call : Arguments R)
    (scale : R) (h d : Nat) :
    targetRow e shape call mask scale 0 h i d =
      fin (softmax e (keys shape call scale h i (kept shape mask i)) d) := by
  have lanes := funext (targetLane_eq additive row call scale h)
  rcases first with noColumns | first
  · have atStart : targetState e shape call mask scale 0 h i = start := by
      simp [targetState, State.loop, blocks, noColumns, blockN]
    have noKeys : keys shape call scale h i (kept shape mask i) = [] := by simp [keys, noColumns]
    rw [noKeys, softmax_nil, targetRow, atStart]
    simp [start, Ieee.isPositive, fin_div]
  · have represents : Represents e (keys shape call scale h i (kept shape mask i))
        (targetState e shape call mask scale 0 h i) := by
      rw [targetState, lanes, ← kept_keys, ← List.nil_append (List.map _ _)]
      exact Represents.empty.loop_first e (by decide) (fun n isKept => kept_inside isKept) first
    have some : keys shape call scale h i (kept shape mask i) ≠ [] := by
      obtain ⟨n, -, isKept⟩ := first
      have listed : n ∈ (List.range shape.KV).filter (kept shape mask i) :=
        List.mem_filter.mpr ⟨List.mem_range.mpr (kept_inside isKept), isKept⟩
      simp [keys, List.ne_nil_of_mem listed]
    have positive : (targetState e shape call mask scale 0 h i).l.isPositive = true := by
      obtain ⟨sum, above, denominator⟩ := represents.positive e some
      rw [denominator, Ieee.isPositive]
      exact decide_eq_true above
    rw [targetRow, if_pos positive]
    exact represents.quotient e some d

theorem targetRow_poisoned {e : R → R} (additive : Additive shape mask) (row : i < shape.Q)
    (some : 0 < shape.KV) (masked : ∀ n, n < blockN → kept shape mask i n = false)
    (call : Arguments R) (scale : R) (h d : Nat) :
    targetRow e shape call mask scale 0 h i d = nan := by
  have poisoned : (targetState e shape call mask scale 0 h i).Poisoned := by
    rw [targetState, funext (targetLane_eq additive row call scale h)]
    exact start_loop_poisoned e (by decide) some masked
  rw [targetRow, poisoned.2 d, nan_div]

end rows

section necessity

variable [Field R] [LinearOrder R] {e : Exponential R} {sqrt : R → R} {threshold : Nat}
  {sdpa : Sdpa R} {shape : Shape} {mask : Option (Mask R)} {scaling : Option R}

/-- Arguments of zeros. -/
def nothing : Arguments R := ⟨fun _ _ _ _ => 0, fun _ _ _ _ => 0, fun _ _ _ _ => 0⟩

theorem dropsIn_fallback (many : threshold < shape.Q) :
    DropsIn e sqrt threshold sdpa shape mask scaling := by
  intro call fresh
  refine ⟨sdpa shape call mask scaling, if_pos (.inl many), rfl, fun h _ i _ d _ => ?_⟩
  exact ⟨fun _ => rfl, fun few => absurd many (Nat.not_lt.mpr few)⟩

/-- Calls that drop in and do not fall back have the kernel's head size. -/
theorem channels_of_dropsIn (few : shape.Q ≤ threshold) (one : shape.B = 1)
    (drops : DropsIn e sqrt threshold sdpa shape mask scaling) : shape.D = 128 := by
  by_contra other
  obtain ⟨out, computed, -⟩ := drops nothing (fun _ => nan)
  have here : ¬(threshold < shape.Q ∨ shape.B ≠ 1) := by omega
  rw [tritonTreeAttentionForward, if_neg here] at computed
  dsimp only at computed
  rw [treeAttentionTarget, if_neg (fun sizes => other sizes.1)] at computed
  simp at computed

/-- Calls with a mask that drop in show each query a column of the first tile. -/
theorem first_of_dropsIn {bias : Mask R} (few : shape.Q ≤ threshold) (one : shape.B = 1)
    (channels : shape.D = 128) (heads : 0 < shape.Hq) (grouped : shape.Hq % shape.Hkv = 0)
    (documented : Documented e sqrt sdpa) (additive : Additive shape (some bias))
    (drops : DropsIn e sqrt threshold sdpa shape (some bias) scaling) :
    ∀ i < shape.Q, shape.KV = 0 ∨ ∃ n < shape.KV, n < blockN ∧ bias i n = fin 0 := by
  intro i row
  by_contra! masked
  obtain ⟨nonzero, late⟩ := masked
  have blind : ∀ n, n < blockN → kept shape (some bias) i n = false := by
    intro n early
    by_cases inside : n < shape.KV
    · simp [kept, late n inside early]
    · simp [kept, inside]
  obtain ⟨out, computed, -, entries⟩ := drops nothing (fun _ => nan)
  obtain ⟨other, again, -, rows⟩ := forward_kernel e nothing (some bias) sqrt sdpa scaling
    (fun _ => nan) few one channels grouped
  obtain rfl : out = other := Option.some_injective _ (computed.symm.trans again)
  have channel : 0 < shape.D := by omega
  obtain ⟨visible, invisible⟩ := entries 0 heads i row 0 channel
  rw [rows 0 heads i row 0 channel,
    targetRow_poisoned additive row (Nat.pos_of_ne_zero nonzero) blind] at visible invisible
  by_cases some : ∃ n < shape.KV, sees shape (Option.some bias) i n = true
  · have wrong := visible some
    rw [documented.average shape nothing _ scaling one additive 0 heads i row 0 channel some] at wrong
    cases wrong
  · push Not at some
    have wrong := invisible few (fun n inside => by simpa using some n inside)
    cases wrong

end necessity

section verdict

variable [Field R] [LinearOrder R] [IsStrictOrderedRing R] {e : Exponential R} {sqrt : R → R}
  {threshold : Nat} {sdpa : Sdpa R} {shape : Shape} {mask : Option (Mask R)} {scaling : Option R}

/-- The kernel's calls drop in when each query has a column in the first tile, and the columns
the kernel leaves are those the query sees. -/
theorem dropsIn_kernel (documented : Documented e sqrt sdpa) (one : shape.B = 1)
    (grouped : shape.Hq % shape.Hkv = 0) (additive : Additive shape mask)
    (few : shape.Q ≤ threshold) (channels : shape.D = 128)
    (first : ∀ i < shape.Q, shape.KV = 0 ∨ ∃ n, n < blockN ∧ kept shape mask i n = true)
    (same : ∀ i < shape.Q, ∀ n < shape.KV, kept shape mask i n = sees shape mask i n) :
    DropsIn e sqrt threshold sdpa shape mask scaling := by
  intro call fresh
  obtain ⟨out, computed, sizes, rows⟩ := forward_kernel e call mask sqrt sdpa scaling fresh few one
    channels grouped
  refine ⟨out, computed, sizes.trans (documented.sizes shape call mask scaling).symm,
    fun h head i row d channel => ?_⟩
  have seen : (List.range shape.KV).filter (kept shape mask i) =
      (List.range shape.KV).filter (sees shape mask i) :=
    List.filter_congr (fun n member => same i row n (List.mem_range.mp member))
  rw [rows h head i row d channel, targetRow_average additive row (first i row), keys, seen]
  constructor
  · intro visible
    exact (documented.average shape call mask scaling one additive h head i row d channel visible).symm
  · intro _ blind
    have noKeys : (List.range shape.KV).filter (sees shape mask i) = [] := by
      rw [List.filter_eq_nil_iff]
      intro n member
      simp [blind n (List.mem_range.mp member)]
    rw [noKeys, List.map_nil, softmax_nil]

theorem dropsIn_of_clear (documented : Documented e sqrt sdpa) (one : shape.B = 1)
    (grouped : shape.Hq % shape.Hkv = 0) (additive : Additive shape mask)
    (clear : Clear threshold shape mask) : DropsIn e sqrt threshold sdpa shape mask scaling := by
  rcases clear with many | ⟨channels, clear⟩
  · exact dropsIn_fallback many
  rcases Nat.lt_or_ge threshold shape.Q with many | few
  · exact dropsIn_fallback many
  refine dropsIn_kernel documented one grouped additive few channels ?_ ?_
  · intro i row
    cases mask with
    | some bias =>
      refine (clear i row).imp_right ?_
      rintro ⟨n, inside, early, zero⟩
      exact ⟨n, early, by simp [kept, inside, zero]⟩
    | none =>
      refine (Nat.eq_zero_or_pos shape.KV).imp_right (fun some => ⟨0, by decide, ?_⟩)
      simp [kept, some]
  · intro i row n inside
    cases mask with
    | some bias => simp [kept, sees, inside]
    | none =>
      have causal : shape.Q ≤ 1 ∨ n ≤ i := clear.imp_right (fun single => by omega)
      simp [kept, sees, inside, causal]

/-- Several queries without a mask see causally, and the kernel does not know it. -/
theorem causal_of_dropsIn (few : shape.Q ≤ threshold) (one : shape.B = 1) (channels : shape.D = 128)
    (heads : 0 < shape.Hq) (grouped : shape.Hq % shape.Hkv = 0) (documented : Documented e sqrt sdpa)
    (drops : DropsIn e sqrt threshold sdpa shape none scaling) : shape.Q ≤ 1 ∨ shape.KV ≤ 1 := by
  by_contra! several
  obtain ⟨queries, columns⟩ := several
  -- the first query's only column has the value zero, and those behind it have the value one
  let call : Arguments R :=
    ⟨fun _ _ _ _ => 0, fun _ _ _ _ => 0, fun _ _ n _ => if n = 0 then 0 else 1⟩
  have additive : Additive shape (none : Option (Mask R)) := fun bias isSome => by cases isSome
  have row : 0 < shape.Q := by omega
  have channel : 0 < shape.D := by omega
  obtain ⟨out, computed, -, entries⟩ := drops call (fun _ => nan)
  obtain ⟨other, again, -, rows⟩ := forward_kernel e call none sqrt sdpa scaling (fun _ => nan) few
    one channels grouped
  obtain rfl : out = other := Option.some_injective _ (computed.symm.trans again)
  have visible : ∃ n < shape.KV, sees shape (none : Option (Mask R)) 0 n = true :=
    ⟨0, by omega, by simp [sees]⟩
  have same := (entries 0 heads 0 row 0 channel).1 visible
  rw [rows 0 heads 0 row 0 channel,
    targetRow_average additive row (.inr ⟨0, by decide, by simp [kept]; omega⟩),
    documented.average shape call none scaling one additive 0 heads 0 row 0 channel visible,
    Ieee.fin.injEq] at same
  have causal : softmax e (keys shape call (scaling.getD (1 / sqrt shape.D)) 0 0
      (sees shape (none : Option (Mask R)) 0)) 0 = 0 := by
    apply softmax_zero
    intro key listed
    obtain ⟨n, member, rfl⟩ := List.mem_map.mp listed
    have seen := List.of_mem_filter member
    have isFirst : n = 0 := by simpa [sees, Nat.not_le.mpr queries] using seen
    simp [call, isFirst]
  have all : 0 < softmax e (keys shape call (scaling.getD (1 / sqrt shape.D)) 0 0
      (kept shape (none : Option (Mask R)) 0)) 0 := by
    refine softmax_pos e (List.mem_map_of_mem (a := 1) ?_) ?_ ?_
    · exact List.mem_filter.mpr ⟨List.mem_range.mpr columns, by simp [kept, columns]⟩
    · simp [call]
    · intro key listed
      obtain ⟨n, -, rfl⟩ := List.mem_map.mp listed
      by_cases isFirst : n = 0 <;> simp [call, isFirst]
  rw [same, causal] at all
  exact lt_irrefl 0 all

end verdict

/-- The forward replaces the library's attention, on every content of queries, keys and values,
exactly when the call is clear. -/
theorem target_dropsIn_iff [Field R] [LinearOrder R] [IsStrictOrderedRing R] (e : Exponential R)
    (sqrt : R → R) (threshold : Nat) (sdpa : Sdpa R) (documented : Documented e sqrt sdpa)
    (shape : Shape) (one : shape.B = 1) (heads : 0 < shape.Hq)
    (grouped : shape.Hq % shape.Hkv = 0) (mask : Option (Mask R)) (additive : Additive shape mask)
    (scaling : Option R) :
    DropsIn e sqrt threshold sdpa shape mask scaling ↔ Clear threshold shape mask := by
  constructor
  · intro drops
    rcases Nat.lt_or_ge threshold shape.Q with many | few
    · exact .inl many
    have channels := channels_of_dropsIn few one drops
    refine .inr ⟨channels, ?_⟩
    cases mask with
    | some bias => exact first_of_dropsIn few one channels heads grouped documented additive drops
    | none => exact causal_of_dropsIn few one channels heads grouped documented drops
  · exact dropsIn_of_clear documented one grouped additive

section instances

/-- An attention that is the softmax average of the columns seen. -/
noncomputable def averageSdpa : Sdpa ℝ := fun shape call mask scaling =>
  ⟨[shape.B, shape.Q, shape.Hq, shape.D], fun _ i h d => fin (softmax realExponential
    (keys shape call (scaling.getD (1 / Real.sqrt shape.D)) h i (sees shape mask i)) d)⟩

theorem averageSdpa_documented : Documented realExponential Real.sqrt averageSdpa where
  sizes _ _ _ _ := rfl
  average _ _ _ _ _ _ _ _ _ _ _ _ _ := rfl

/-- One query over sixty-five columns, for two heads that share keys. -/
def lateShape : Shape := ⟨1, 2, 1, 1, 65, 128⟩

/-- A mask that shows the last column only. -/
noncomputable def lateMask : Mask ℝ := fun _ n => if n = 64 then fin 0 else negInf

theorem lateMask_additive : Additive lateShape (some lateMask) := by
  rintro bias ⟨⟩ i row n inside
  by_cases isLast : n = 64
  · exact .inl (if_pos isLast)
  · exact .inr (if_neg isLast)

/-- A mask that shows the first column and the last one. -/
noncomputable def endsMask : Mask ℝ := fun _ n => if n = 0 ∨ n = 64 then fin 0 else negInf

theorem endsMask_additive : Additive lateShape (some endsMask) := by
  rintro bias ⟨⟩ i row n inside
  by_cases shown : n = 0 ∨ n = 64
  · exact .inl (if_pos shown)
  · exact .inr (if_neg shown)

/-- The replacement is good for one query that sees a column of either tile. -/
theorem target_dropsIn_iff_ends :
    DropsIn realExponential Real.sqrt 200 averageSdpa lateShape (some endsMask) none :=
  (target_dropsIn_iff realExponential Real.sqrt 200 averageSdpa averageSdpa_documented lateShape rfl
    (by decide) (by decide) (some endsMask) endsMask_additive none).mpr
    (.inr ⟨rfl, fun _ _ => .inr ⟨0, by decide, by decide, if_pos (.inl rfl)⟩⟩)

/-- A query that sees only the last of sixty-five columns gets another result. -/
theorem late_column_lost : Additive lateShape (some lateMask) ∧
    (∀ i < lateShape.Q, ∃ n < lateShape.KV, sees lateShape (some lateMask) i n = true) ∧
    ¬DropsIn realExponential Real.sqrt 200 averageSdpa lateShape (some lateMask) none := by
  refine ⟨lateMask_additive, fun i row => ⟨64, by decide, by simp [sees, lateMask]⟩, fun drops => ?_⟩
  have first := first_of_dropsIn (by decide : lateShape.Q ≤ 200) rfl rfl (by decide) (by decide)
    averageSdpa_documented lateMask_additive drops
  rcases first 0 (by decide) with noColumns | ⟨n, -, early, zero⟩
  · exact absurd noColumns (by decide)
  · have notLast : n ≠ 64 := by
      have bound : n < 64 := early
      omega
    simp [lateMask, notLast] at zero

end instances

end SpecBlock.Attention
