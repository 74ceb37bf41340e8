import SpecBlock.Foundation.Ieee
import Mathlib.Algebra.BigOperators.Ring.List
import Mathlib.Algebra.Order.BigOperators.Group.List
import Mathlib.Algebra.Order.Field.Basic
import Mathlib.Tactic.Ring

/-!
# Softmax of a row, tile by tile

A kernel goes through the columns of a row in tiles. It keeps the largest score so far, the
sum of the exponentials of the scores less it, and the same sum weighted by the values. A new
tile may raise the largest score, and the sums are rescaled then. A masked column has the
score minus infinity.

Any number may stand for the largest score: the sums divided by one another are the softmax
average of the columns that are not masked, in whichever tiles they lay. Only a row without a
visible column so far is different. Its largest score is minus infinity, and a further masked
tile makes the sums no numbers for good, unless the update is guarded against it.
-/

namespace SpecBlock.OnlineSoftmax

open Ieee

universe u v
variable {R : Type u} {ι : Type v}

/-- An exponential: it is positive and turns sums into products. -/
structure Exponential (R : Type u) [Field R] [LinearOrder R] where
  toFun : R → R
  positive : ∀ exponent, 0 < toFun exponent
  map_add : ∀ left right, toFun (left + right) = toFun left * toFun right

instance [Field R] [LinearOrder R] : CoeFun (Exponential R) (fun _ => R → R) :=
  ⟨Exponential.toFun⟩

/-- A column a row sees. -/
structure Key (R : Type u) (ι : Type v) where
  score : R
  value : ι → R

/-- A column as a tile holds it. -/
structure Lane (R : Type u) (ι : Type v) where
  score : Ieee R
  value : ι → R

/-- The running maximum and the two sums. -/
@[ext] structure State (R : Type u) (ι : Type v) where
  m : Ieee R
  l : Ieee R
  acc : ι → Ieee R

/-- A column with its score where it is visible, and minus infinity elsewhere. -/
def Lane.shown (visible : Bool) (score : R) (value : ι → R) : Lane R ι :=
  ⟨if visible then fin score else negInf, value⟩

/-- The column behind a lane, unless it is masked. -/
def Lane.key (lane : Lane R ι) : Option (Key R ι) :=
  match lane.score with
  | fin score => some ⟨score, lane.value⟩
  | _ => none

/-- A lane that is masked or has a number as its score. -/
def Lane.Clean (lane : Lane R ι) : Prop := lane.score = negInf ∨ ∃ score, lane.score = fin score

/-- The visible columns of a tile. -/
def keysOf (tile : List (Lane R ι)) : List (Key R ι) := tile.filterMap Lane.key

/-- The offsets of a loop over columns, tile by tile; the last tile may reach past the end. -/
def blocks (count size : Nat) : List (List Nat) :=
  (List.range ((count + size - 1) / size)).map
    (fun block => (List.range size).map (fun lane => block * size + lane))

section updates

variable [Field R] [LinearOrder R]

/-- The state before the first tile. -/
def start : State R ι := ⟨negInf, fin 0, fun _ => fin 0⟩

/-- The largest score of a tile. -/
def tileMax (tile : List (Lane R ι)) : Ieee R :=
  (tile.map Lane.score).foldr maxNum negInf

/-- The factor of the old sums; a guarded update leaves the sums of an empty row. -/
def rescale (e : R → R) (guarded : Bool) (old new : Ieee R) : Ieee R :=
  if guarded && new.isNegInf then fin 1 else (old - new).exp e

/-- The weight of a column; a guarded update has none in an empty row. -/
def weight (e : R → R) (guarded : Bool) (new score : Ieee R) : Ieee R :=
  if guarded && new.isNegInf then fin 0 else (score - new).exp e

/-- The state after a tile. -/
def State.update (e : R → R) (guarded : Bool) (state : State R ι) (tile : List (Lane R ι)) :
    State R ι :=
  let new := state.m.maxNum (tileMax tile)
  let alpha := rescale e guarded state.m new
  { m := new
    l := state.l * alpha + (tile.map (fun lane => weight e guarded new lane.score)).sum
    acc := fun i => state.acc i * alpha +
      (tile.map (fun lane => weight e guarded new lane.score * fin (lane.value i))).sum }

/-- The state after a loop over the columns before an end. -/
def State.loop (e : R → R) (guarded : Bool) (count size : Nat) (lane : Nat → Lane R ι)
    (state : State R ι) : State R ι :=
  (blocks count size).foldl (fun state tile => state.update e guarded (tile.map lane)) state

/-- A softmax over a whole row at once, and the values weighted by it. -/
def average (e : R → R) (row : List (Lane R ι)) (i : ι) : Ieee R :=
  let largest := tileMax row
  let denominator := (row.map (fun lane => (lane.score - largest).exp e)).sum
  (row.map (fun lane => (lane.score - largest).exp e / denominator * fin (lane.value i))).sum

end updates

section average

variable [Field R] (e : R → R) (keys others : List (Key R ι)) (i : ι)

/-- The sum of the exponentials. -/
def total : R := (keys.map (fun key => e key.score)).sum

/-- The sum of the values, each times its exponential. -/
def weighted : R := (keys.map (fun key => e key.score * key.value i)).sum

/-- The softmax average of the values; zero when there is no column. -/
def softmax : R := weighted e keys i / total e keys

@[simp] theorem total_append : total e (keys ++ others) = total e keys + total e others := by
  simp [total]

@[simp] theorem weighted_append :
    weighted e (keys ++ others) i = weighted e keys i + weighted e others i := by
  simp [weighted]

@[simp] theorem total_nil : total e ([] : List (Key R ι)) = 0 := rfl

@[simp] theorem weighted_nil : weighted e ([] : List (Key R ι)) i = 0 := rfl

@[simp] theorem softmax_nil : softmax e ([] : List (Key R ι)) i = 0 := by
  simp [softmax]

theorem softmax_congr {κ : Type*} (columns : List κ) (first second : κ → Key R ι)
    (same : ∀ column ∈ columns, (first column).score = (second column).score ∧
      (first column).value i = (second column).value i) :
    softmax e (columns.map first) i = softmax e (columns.map second) i := by
  have totals : total e (columns.map first) = total e (columns.map second) := by
    rw [total, total, List.map_map, List.map_map]
    congr 1
    exact List.map_congr_left (fun column member => congrArg e (same column member).1)
  have values : weighted e (columns.map first) i = weighted e (columns.map second) i := by
    rw [weighted, weighted, List.map_map, List.map_map]
    congr 1
    apply List.map_congr_left
    intro column member
    obtain ⟨score, value⟩ := same column member
    simp only [Function.comp_apply, score, value]
  rw [softmax, softmax, totals, values]

end average

section lanes

variable (tile others : List (Lane R ι))

@[simp] theorem keysOf_nil : keysOf ([] : List (Lane R ι)) = [] := rfl

@[simp] theorem keysOf_append : keysOf (tile ++ others) = keysOf tile ++ keysOf others :=
  List.filterMap_append

theorem keysOf_flatten (tiles : List (List (Lane R ι))) :
    keysOf tiles.flatten = tiles.flatMap keysOf := by
  induction tiles with
  | nil => rfl
  | cons tile tiles ih =>
    rw [List.flatten_cons, keysOf_append, ih, List.flatMap_cons]

theorem Lane.shown_clean (visible : Bool) (score : R) (value : ι → R) :
    (Lane.shown visible score value).Clean := by
  cases visible
  · exact .inl rfl
  · exact .inr ⟨score, rfl⟩

@[simp] theorem Lane.shown_key (visible : Bool) (score : R) (value : ι → R) :
    (Lane.shown visible score value).key = if visible then some ⟨score, value⟩ else none := by
  cases visible <;> rfl

theorem keysOf_shown {κ : Type*} (columns : List κ) (visible : κ → Bool) (score : κ → R)
    (value : κ → ι → R) :
    keysOf (columns.map (fun column => Lane.shown (visible column) (score column) (value column))) =
      (columns.filter visible).map (fun column => ⟨score column, value column⟩) := by
  induction columns with
  | nil => rfl
  | cons column columns ih =>
    rw [keysOf] at ih ⊢
    rw [List.map_cons, List.filterMap_cons, Lane.shown_key, List.filter_cons]
    cases seen : visible column
    · simpa using ih
    · simpa using ih

end lanes

section blocks

theorem blocks_flatten (count size : Nat) :
    (blocks count size).flatten = List.range ((count + size - 1) / size * size) := by
  rw [blocks]
  induction (count + size - 1) / size with
  | zero => simp
  | succ blocks ih =>
    rw [List.range_succ, List.map_append, List.flatten_append, ih, Nat.succ_mul,
      List.range_add]
    simp

theorem range_filter_below {count whole : Nat} (reach : count ≤ whole) :
    (List.range whole).filter (fun column => decide (column < count)) = List.range count := by
  obtain ⟨rest, rfl⟩ := Nat.exists_eq_add_of_le reach
  rw [List.range_add, List.filter_append]
  have inside : (List.range count).filter (fun column => decide (column < count)) =
      List.range count :=
    List.filter_eq_self.mpr (fun column member => by simpa using member)
  have outside : ((List.range rest).map (fun column => count + column)).filter
      (fun column => decide (column < count)) = [] := by
    rw [List.filter_eq_nil_iff]
    intro column member
    obtain ⟨further, -, rfl⟩ := List.mem_map.mp member
    simp
  rw [inside, outside, List.append_nil]

theorem range_filter_swap (left right : Nat) (allowed : Nat → Bool) :
    (List.range left).filter (fun column => decide (column < right) && allowed column) =
      (List.range right).filter (fun column => decide (column < left) && allowed column) := by
  have shorter {less more : Nat} (reach : less ≤ more) :
      (List.range more).filter (fun column => decide (column < less) && allowed column) =
        (List.range less).filter (fun column => decide (column < more) && allowed column) := by
    rw [← range_filter_below reach, List.filter_filter]
    apply List.filter_congr
    intro column member
    have bound := List.mem_range.mp member
    simp [bound, Bool.and_comm]
  rcases Nat.le_total left right with reach | reach
  · exact (shorter reach).symm
  · exact shorter reach

theorem blocks_inside (count size : Nat) (positive : 0 < size) :
    (blocks count size).flatten.filter (fun column => decide (column < count)) =
      List.range count := by
  rw [blocks_flatten]
  apply range_filter_below
  have remainder := Nat.div_add_mod (count + size - 1) size
  have small := Nat.mod_lt (count + size - 1) positive
  rw [Nat.mul_comm] at remainder
  omega

theorem blocks_first (count size : Nat) (positive : 0 < size) (some : 0 < count) :
    ∃ rest, blocks count size = List.range size :: rest := by
  have one : 0 < (count + size - 1) / size := Nat.div_pos (by omega) positive
  obtain ⟨more, isMore⟩ := Nat.exists_eq_succ_of_ne_zero one.ne'
  refine ⟨(List.range more).map (fun block => (List.range size).map
    (fun lane => (block + 1) * size + lane)), ?_⟩
  rw [blocks, isMore, List.range_succ_eq_map, List.map_cons, List.map_map]
  simp [Function.comp_def]

theorem State.loop_congr [Field R] [LinearOrder R] (e : R → R) (guarded : Bool) (count size : Nat)
    (lane other : Nat → Lane R ι) (state : State R ι)
    (same : ∀ column < (count + size - 1) / size * size, lane column = other column) :
    state.loop e guarded count size lane = state.loop e guarded count size other := by
  have alike : ∀ tile ∈ blocks count size, tile.map lane = tile.map other := by
    intro tile listed
    apply List.map_congr_left
    intro column member
    refine same column (List.mem_range.mp ?_)
    rw [← blocks_flatten]
    exact List.mem_flatten.mpr ⟨tile, listed, member⟩
  rw [State.loop, ← List.foldl_map, List.map_congr_left alike, List.foldl_map, State.loop]

theorem keysOf_blocks (count size : Nat) (positive : 0 < size) (visible : Nat → Bool)
    (score : Nat → R) (value : Nat → ι → R)
    (inside : ∀ column, visible column = true → column < count) :
    ((blocks count size).map (fun tile => tile.map
      (fun column => Lane.shown (visible column) (score column) (value column)))).flatMap keysOf =
      ((List.range count).filter visible).map (fun column => ⟨score column, value column⟩) := by
  rw [← keysOf_flatten, ← List.map_flatten, keysOf_shown, ← blocks_inside count size positive,
    List.filter_filter]
  congr 1
  apply List.filter_congr
  intro column _
  cases seen : visible column
  · simp
  · simpa using inside column seen

theorem blocks_clean (count size : Nat) (visible : Nat → Bool) (score : Nat → R)
    (value : Nat → ι → R) :
    ∀ tile ∈ (blocks count size).map (fun tile => tile.map
      (fun column => Lane.shown (visible column) (score column) (value column))),
      ∀ lane ∈ tile, lane.Clean := by
  intro tile listed lane member
  obtain ⟨offsets, -, rfl⟩ := List.mem_map.mp listed
  obtain ⟨column, -, rfl⟩ := List.mem_map.mp member
  exact Lane.shown_clean _ _ _

end blocks

section maximum

variable [LinearOrder R]

/-- The largest score of a clean tile is a number exactly when some column is visible. -/
theorem tileMax_cases (tile : List (Lane R ι)) (clean : ∀ lane ∈ tile, lane.Clean) :
    (keysOf tile = [] ∧ tileMax tile = negInf) ∨
      (keysOf tile ≠ [] ∧ ∃ largest, tileMax tile = fin largest) := by
  induction tile with
  | nil => exact .inl ⟨rfl, rfl⟩
  | cons lane tile ih =>
    have rest := ih (fun other member => clean other (List.mem_cons_of_mem _ member))
    obtain ⟨score, value⟩ := lane
    have step : tileMax (⟨score, value⟩ :: tile) = maxNum score (tileMax tile) := rfl
    rw [step]
    rcases clean ⟨score, value⟩ List.mem_cons_self with masked | ⟨number, isNumber⟩
    · obtain rfl : score = negInf := masked
      have same : keysOf (⟨negInf, value⟩ :: tile) = keysOf tile := rfl
      rw [same]
      rcases rest with ⟨none, isNegInf⟩ | ⟨some, largest, isFin⟩
      · exact .inl ⟨none, by rw [isNegInf, negInf_maxNum_negInf]⟩
      · exact .inr ⟨some, largest, by rw [isFin, negInf_maxNum_fin]⟩
    · obtain rfl : score = fin number := isNumber
      have more : keysOf (⟨fin number, value⟩ :: tile) = ⟨number, value⟩ :: keysOf tile := rfl
      rw [more]
      refine .inr ⟨List.cons_ne_nil _ _, ?_⟩
      rcases rest with ⟨-, isNegInf⟩ | ⟨-, largest, isFin⟩
      · exact ⟨number, by rw [isNegInf, fin_maxNum_negInf]⟩
      · exact ⟨max number largest, by rw [isFin, maxNum_fin]⟩

end maximum

section invariant

variable [Field R] [LinearOrder R] (e : Exponential R)

theorem exponential_sub (score less : R) : e (score - less) = e score * e (-less) := by
  rw [sub_eq_add_neg, e.map_add]

theorem total_pos [IsStrictOrderedRing R] {keys : List (Key R ι)} (some : keys ≠ []) : 0 < total e keys := by
  refine List.sum_pos _ (fun weight member => ?_) (by simpa using some)
  obtain ⟨key, -, rfl⟩ := List.mem_map.mp member
  exact e.positive key.score

theorem softmax_zero {keys : List (Key R ι)} {i : ι} (zero : ∀ key ∈ keys, key.value i = 0) :
    softmax e keys i = 0 := by
  have none : weighted e keys i = 0 := by
    apply List.sum_eq_zero
    intro value member
    obtain ⟨key, listed, rfl⟩ := List.mem_map.mp member
    rw [zero key listed, mul_zero]
  rw [softmax, none, zero_div]

/-- Values of which none is below zero and one is above average to more than zero. -/
theorem softmax_pos [IsStrictOrderedRing R] {keys : List (Key R ι)} {i : ι} {key : Key R ι}
    (listed : key ∈ keys) (above : 0 < key.value i) (others : ∀ key ∈ keys, 0 ≤ key.value i) :
    0 < softmax e keys i := by
  have least : e key.score * key.value i ≤ weighted e keys i := by
    apply List.single_le_sum
    · intro value member
      obtain ⟨other, isListed, rfl⟩ := List.mem_map.mp member
      exact mul_nonneg (e.positive _).le (others other isListed)
    · exact List.mem_map_of_mem listed
  exact div_pos (lt_of_lt_of_le (mul_pos (e.positive _) above) least)
    (total_pos e (List.ne_nil_of_mem listed))

/-- The state of the columns seen so far: as before the first tile when there is none, and
otherwise the two sums, less some number in every exponent. -/
inductive Represents : List (Key R ι) → State R ι → Prop
  | empty : Represents [] start
  | running (keys : List (Key R ι)) (some : keys ≠ []) (largest : R) :
      Represents keys ⟨fin largest, fin (total e keys * e (-largest)),
        fun i => fin (weighted e keys i * e (-largest))⟩

omit [LinearOrder R] in
/-- A sum over the lanes of a clean tile, to which the masked ones add nothing. -/
theorem lanes_sum (share : Lane R ι → Ieee R) (part : Key R ι → R)
    (masked : ∀ value, share ⟨negInf, value⟩ = fin 0)
    (seen : ∀ number value, share ⟨fin number, value⟩ = fin (part ⟨number, value⟩))
    (tile : List (Lane R ι)) (clean : ∀ lane ∈ tile, lane.Clean) :
    (tile.map share).sum = fin ((keysOf tile).map part).sum := by
  induction tile with
  | nil => rfl
  | cons lane tile ih =>
    have rest := ih (fun other member => clean other (List.mem_cons_of_mem _ member))
    obtain ⟨score, value⟩ := lane
    rw [List.map_cons, List.sum_cons, rest]
    rcases clean ⟨score, value⟩ List.mem_cons_self with isMasked | ⟨number, isNumber⟩
    · obtain rfl : score = negInf := isMasked
      rw [masked, fin_add, zero_add]
      rfl
    · obtain rfl : score = fin number := isNumber
      rw [seen, fin_add]
      rfl

theorem weights_sum (guarded : Bool) (largest : R) (tile : List (Lane R ι))
    (clean : ∀ lane ∈ tile, lane.Clean) :
    (tile.map (fun lane => weight e guarded (fin largest) lane.score)).sum =
      fin (total e (keysOf tile) * e (-largest)) := by
  rw [total, ← List.sum_map_mul_right]
  exact lanes_sum _ _ (fun _ => by simp [weight]) (fun _ _ => by simp [weight, exponential_sub]) tile clean

theorem weighted_sum (guarded : Bool) (largest : R) (tile : List (Lane R ι)) (i : ι)
    (clean : ∀ lane ∈ tile, lane.Clean) :
    (tile.map (fun lane => weight e guarded (fin largest) lane.score * fin (lane.value i))).sum =
      fin (weighted e (keysOf tile) i * e (-largest)) := by
  rw [weighted, ← List.sum_map_mul_right]
  exact lanes_sum _ _ (fun _ => by simp [weight])
    (fun _ _ => by simp [weight, exponential_sub, mul_right_comm]) tile clean

/-- The values of a clean tile, each with its share of a sum that is not zero. -/
theorem shares_sum (largest denominator : R) (nonzero : denominator ≠ 0) (tile : List (Lane R ι))
    (i : ι) (clean : ∀ lane ∈ tile, lane.Clean) :
    (tile.map (fun lane => (lane.score - fin largest).exp e / fin denominator *
      fin (lane.value i))).sum =
      fin (weighted e (keysOf tile) i * e (-largest) / denominator) := by
  rw [weighted, mul_div_assoc, ← List.sum_map_mul_right]
  refine lanes_sum _ _ (fun _ => by simp [fin_div _ _ nonzero]) (fun number value => ?_) tile clean
  rw [fin_sub, exp_fin, fin_div _ _ nonzero, fin_mul, exponential_sub]
  exact congrArg fin (by ring)

/-- A row at once is the softmax average of its visible columns. -/
theorem average_eq [IsStrictOrderedRing R] (row : List (Lane R ι)) (i : ι)
    (clean : ∀ lane ∈ row, lane.Clean) (some : keysOf row ≠ []) :
    average e row i = fin (softmax e (keysOf row) i) := by
  rcases tileMax_cases row clean with ⟨none, -⟩ | ⟨-, largest, isLargest⟩
  · exact absurd none some
  have scale : e (-largest) ≠ 0 := (e.positive _).ne'
  have nonzero : total e (keysOf row) * e (-largest) ≠ 0 := mul_ne_zero (total_pos e some).ne' scale
  have denominator : (row.map (fun lane => (lane.score - fin largest).exp e)).sum =
      fin (total e (keysOf row) * e (-largest)) := weights_sum e false largest row clean
  unfold average
  dsimp only
  rw [isLargest, denominator, shares_sum e largest _ nonzero row i clean,
    mul_div_mul_right _ _ scale, softmax]

/-- A tile that leaves the largest score a number adds its columns. -/
theorem update_running (guarded : Bool) {keys : List (Key R ι)} {state : State R ι}
    (represents : Represents e keys state) (tile : List (Lane R ι))
    (clean : ∀ lane ∈ tile, lane.Clean) (largest : R)
    (raised : state.m.maxNum (tileMax tile) = fin largest) (some : keys ++ keysOf tile ≠ []) :
    Represents e (keys ++ keysOf tile) (state.update e guarded tile) := by
  have next : state.update e guarded tile =
      ⟨fin largest, fin (total e (keys ++ keysOf tile) * e (-largest)),
        fun i => fin (weighted e (keys ++ keysOf tile) i * e (-largest))⟩ := by
    unfold State.update
    dsimp only
    rw [raised]
    simp only [weights_sum e guarded largest tile clean, weighted_sum e guarded largest tile _ clean,
      total_append, weighted_append]
    cases represents with
    | empty => simp [start, rescale]
    | running keys some before =>
      have shift : e (before - largest) * e (-before) = e (-largest) := by
        rw [← e.map_add]
        congr 1
        ring
      have move (sum : R) : sum * e (-before) * e (before - largest) = sum * e (-largest) := by
        rw [mul_assoc, mul_comm (e (-before)), shift]
      simp [rescale, move, add_mul]
  rw [next]
  exact .running _ some largest

/-- A tile adds its visible columns, guarded or where some column is visible by then. -/
theorem Represents.update {keys : List (Key R ι)} {state : State R ι}
    (represents : Represents e keys state) (guarded : Bool) {tile : List (Lane R ι)}
    (clean : ∀ lane ∈ tile, lane.Clean) (allowed : guarded = true ∨ keys ++ keysOf tile ≠ []) :
    Represents e (keys ++ keysOf tile) (state.update e guarded tile) := by
  have joined := update_running e guarded represents tile clean
  rcases tileMax_cases tile clean with ⟨none, masked⟩ | ⟨some, largest, visible⟩
  · cases represents with
    | empty =>
      obtain rfl : guarded = true := allowed.resolve_right (by simp [none])
      have kept : (start : State R ι).update e true tile = start := by
        simp [State.update, start, masked, rescale, weight]
      rw [none, kept]
      exact .empty
    | running keys some before =>
      exact joined before (by rw [masked, fin_maxNum_negInf]) (by simp [some])
  · have more : keys ++ keysOf tile ≠ [] := by simp [some]
    cases represents with
    | empty => exact joined largest (by rw [visible]; exact negInf_maxNum_fin largest) more
    | running keys some before =>
      exact joined (max before largest) (by rw [visible, maxNum_fin]) more

theorem Represents.guarded {keys : List (Key R ι)} {state : State R ι}
    (represents : Represents e keys state) (tiles : List (List (Lane R ι)))
    (clean : ∀ tile ∈ tiles, ∀ lane ∈ tile, lane.Clean) :
    Represents e (keys ++ tiles.flatMap keysOf) (tiles.foldl (State.update e true) state) := by
  induction tiles generalizing keys state with
  | nil => simpa using represents
  | cons tile tiles ih =>
    have step := represents.update e true (clean tile List.mem_cons_self) (.inl rfl)
    have rest := ih step
      (fun other member => clean other (List.mem_cons_of_mem _ member))
    rw [List.flatMap_cons, ← List.append_assoc]
    exact rest

theorem Represents.unguarded {keys : List (Key R ι)} {state : State R ι}
    (represents : Represents e keys state) (some : keys ≠ []) (tiles : List (List (Lane R ι)))
    (clean : ∀ tile ∈ tiles, ∀ lane ∈ tile, lane.Clean) :
    Represents e (keys ++ tiles.flatMap keysOf) (tiles.foldl (State.update e false) state) := by
  induction tiles generalizing keys state with
  | nil => simpa using represents
  | cons tile tiles ih =>
    have more : keys ++ keysOf tile ≠ [] := by simp [some]
    have step := represents.update e false (clean tile List.mem_cons_self) (.inr more)
    have rest := ih step more
      (fun other member => clean other (List.mem_cons_of_mem _ member))
    rw [List.flatMap_cons, ← List.append_assoc]
    exact rest

/-- Tiles whose first has a visible column, none being there before. -/
theorem Represents.unguarded_first {keys : List (Key R ι)} {state : State R ι}
    (represents : Represents e keys state) (tile : List (Lane R ι)) (tiles : List (List (Lane R ι)))
    (some : keys ++ keysOf tile ≠ []) (clean : ∀ other ∈ tile :: tiles, ∀ lane ∈ other, lane.Clean) :
    Represents e (keys ++ (tile :: tiles).flatMap keysOf)
      ((tile :: tiles).foldl (State.update e false) state) := by
  have step := represents.update e false (clean tile List.mem_cons_self) (.inr some)
  rw [List.flatMap_cons, ← List.append_assoc]
  exact step.unguarded e some tiles (fun other member => clean other (List.mem_cons_of_mem _ member))

section loops

variable {count size : Nat} {visible : Nat → Bool} {score : Nat → R} {value : Nat → ι → R}
  {keys : List (Key R ι)} {state : State R ι}

theorem Represents.loop_guarded (represents : Represents e keys state) (positive : 0 < size)
    (inside : ∀ column, visible column = true → column < count) :
    Represents e
      (keys ++ ((List.range count).filter visible).map (fun column => ⟨score column, value column⟩))
      (state.loop e true count size
        (fun column => Lane.shown (visible column) (score column) (value column))) := by
  rw [← keysOf_blocks count size positive visible score value inside, State.loop, ← List.foldl_map]
  exact represents.guarded e _ (blocks_clean count size visible score value)

theorem Represents.loop_unguarded (represents : Represents e keys state) (some : keys ≠ [])
    (positive : 0 < size) (inside : ∀ column, visible column = true → column < count) :
    Represents e
      (keys ++ ((List.range count).filter visible).map (fun column => ⟨score column, value column⟩))
      (state.loop e false count size
        (fun column => Lane.shown (visible column) (score column) (value column))) := by
  rw [← keysOf_blocks count size positive visible score value inside, State.loop, ← List.foldl_map]
  exact represents.unguarded e some _ (blocks_clean count size visible score value)

theorem Represents.loop_first (represents : Represents e keys state) (positive : 0 < size)
    (inside : ∀ column, visible column = true → column < count)
    (first : ∃ column, column < size ∧ visible column = true) :
    Represents e
      (keys ++ ((List.range count).filter visible).map (fun column => ⟨score column, value column⟩))
      (state.loop e false count size
        (fun column => Lane.shown (visible column) (score column) (value column))) := by
  obtain ⟨column, early, seen⟩ := first
  have some : 0 < count := lt_of_le_of_lt (Nat.zero_le _) (inside column seen)
  obtain ⟨rest, split⟩ := blocks_first count size positive some
  have clean := blocks_clean count size visible score value
  rw [← keysOf_blocks count size positive visible score value inside, State.loop, ← List.foldl_map]
  rw [split, List.map_cons] at clean ⊢
  refine represents.unguarded_first e _ _ ?_ clean
  rw [keysOf_shown]
  have listed : column ∈ (List.range size).filter visible :=
    List.mem_filter.mpr ⟨List.mem_range.mpr early, seen⟩
  simp [List.ne_nil_of_mem listed]

end loops

theorem Represents.sums {keys : List (Key R ι)} {state : State R ι}
    (represents : Represents e keys state) (some : keys ≠ []) :
    ∃ largest, state.l = fin (total e keys * e (-largest)) ∧
      ∀ i, state.acc i = fin (weighted e keys i * e (-largest)) := by
  cases represents with
  | empty => exact absurd rfl some
  | running keys some largest => exact ⟨largest, rfl, fun i => rfl⟩

theorem Represents.positive [IsStrictOrderedRing R] {keys : List (Key R ι)} {state : State R ι}
    (represents : Represents e keys state) (some : keys ≠ []) : ∃ sum, 0 < sum ∧ state.l = fin sum := by
  obtain ⟨largest, denominator, -⟩ := represents.sums e some
  exact ⟨_, mul_pos (total_pos e some) (e.positive _), denominator⟩

/-- A loop whose first tile has a visible column leaves a sum above zero. -/
theorem start_loop_positive [IsStrictOrderedRing R] {count size : Nat} {visible : Nat → Bool}
    {score : Nat → R} {value : Nat → ι → R} (positive : 0 < size)
    (inside : ∀ column, visible column = true → column < count)
    (first : ∃ column, column < size ∧ visible column = true) :
    ∃ sum, 0 < sum ∧ ((start : State R ι).loop e false count size
      (fun column => Lane.shown (visible column) (score column) (value column))).l = fin sum := by
  have loop := @Represents.loop_first R ι _ _ e count size visible score value [] start .empty positive inside
    first
  obtain ⟨column, -, seen⟩ := first
  have listed : column ∈ (List.range count).filter visible :=
    List.mem_filter.mpr ⟨List.mem_range.mpr (inside column seen), seen⟩
  exact loop.positive e (by simp [List.ne_nil_of_mem listed])

theorem Represents.quotient [IsStrictOrderedRing R] {keys : List (Key R ι)} {state : State R ι}
    (represents : Represents e keys state) (some : keys ≠ []) (i : ι) :
    state.acc i / state.l = fin (softmax e keys i) := by
  obtain ⟨largest, denominator, numerator⟩ := represents.sums e some
  have scale : e (-largest) ≠ 0 := (e.positive _).ne'
  have nonzero : total e keys * e (-largest) ≠ 0 := mul_ne_zero (total_pos e some).ne' scale
  rw [denominator, numerator, fin_div _ _ nonzero, softmax, mul_div_mul_right _ _ scale]

end invariant

section poison

variable [Field R] [LinearOrder R] (e : R → R)

/-- A state whose sums are no numbers. -/
def State.Poisoned (state : State R ι) : Prop := state.l = nan ∧ ∀ i, state.acc i = nan

theorem State.Poisoned.update {state : State R ι} (poisoned : state.Poisoned) (guarded : Bool)
    (tile : List (Lane R ι)) : (state.update e guarded tile).Poisoned := by
  simp [State.Poisoned, State.update, poisoned.1, poisoned.2]

theorem State.Poisoned.foldl {state : State R ι} (poisoned : state.Poisoned) (guarded : Bool)
    (tiles : List (List (Lane R ι))) :
    (tiles.foldl (State.update e guarded) state).Poisoned := by
  induction tiles generalizing state with
  | nil => exact poisoned
  | cons tile tiles ih => exact ih (poisoned.update e guarded tile)

/-- A masked tile that nothing visible came before poisons the state, unless guarded. -/
theorem start_poisoned (tile : List (Lane R ι)) (clean : ∀ lane ∈ tile, lane.Clean)
    (masked : keysOf tile = []) : ((start : State R ι).update e false tile).Poisoned := by
  rcases tileMax_cases tile clean with ⟨-, isNegInf⟩ | ⟨some, -⟩
  · simp [State.Poisoned, State.update, start, isNegInf, rescale]
  · exact absurd masked some

/-- A loop whose first tile is masked poisons the state, unless nothing is looped over. -/
theorem start_loop_poisoned {count size : Nat} {visible : Nat → Bool} {score : Nat → R}
    {value : Nat → ι → R} (positive : 0 < size) (some : 0 < count)
    (masked : ∀ column, column < size → visible column = false) :
    ((start : State R ι).loop e false count size
      (fun column => Lane.shown (visible column) (score column) (value column))).Poisoned := by
  obtain ⟨rest, split⟩ := blocks_first count size positive some
  have clean := blocks_clean count size visible score value
  rw [State.loop, ← List.foldl_map]
  rw [split, List.map_cons] at clean ⊢
  rw [List.foldl_cons]
  refine (start_poisoned e _ (clean _ List.mem_cons_self) ?_).foldl e false _
  rw [keysOf_shown, List.map_eq_nil_iff, List.filter_eq_nil_iff]
  intro column member
  simp [masked column (List.mem_range.mp member)]

end poison

end SpecBlock.OnlineSoftmax
