import SpecBlock.Foundation.OnlineSoftmax
import SpecBlock.Foundation.Stores
import Mathlib.Analysis.Complex.Exponential

/-!
# Tensors and tiles of the attention kernels

The attention kernels read and write tensors by batch, head, row and channel, load them in
tiles under masks that leave zeros, and score a column by its product with the query. A program
computes the rows of one tile of queries and stores those that exist; a launch with enough
programs stores every row once.
-/

namespace SpecBlock.Attention

open Ieee OnlineSoftmax

universe u
variable {R : Type u}

/-- A tensor by batch, head, row and channel. -/
abbrev Tensor4 (R : Type u) := Nat → Nat → Nat → Nat → R

/-- An entry of such a tensor. -/
abbrev Place := Nat × Nat × Nat × Nat

section loads

variable [Field R]

/-- Product of two vectors. -/
def dot (D : Nat) (x y : Nat → R) : R := ((List.range D).map (fun d => x d * y d)).sum

/-- A vector that is loaded under a mask, zero elsewhere. -/
def loaded (inBounds : Bool) (x : Nat → R) (d : Nat) : R := if inBounds then x d else 0

theorem loaded_inside {inBounds : Bool} (inside : inBounds = true) (x : Nat → R) :
    loaded inBounds x = x := by
  funext d
  simp [loaded, inside]

theorem dot_congr {D : Nat} (q : Nat → R) {x y : Nat → R} (same : ∀ d < D, x d = y d) :
    dot D q x = dot D q y := by
  rw [dot, dot]
  congr 1
  apply List.map_congr_left
  intro d member
  rw [same d (List.mem_range.mp member)]

/-- The column behind two vectors. -/
def keyOf (D : Nat) (scale : R) (q k v : Nat → R) : Key R Nat := ⟨dot D q k * scale, v⟩

/-- A lane of a tile: its keys and values are loaded where the column is in bounds, and its
score is left where the column is visible. -/
def maskedLane (D : Nat) (scale : R) (q : Nat → R) (inBounds visible : Bool) (k v : Nat → R) :
    Lane R Nat :=
  Lane.shown visible (dot D q (loaded inBounds k) * scale) (loaded inBounds v)

/-- The columns of a masked loop that are visible, all of them in bounds. -/
theorem visible_keys (D : Nat) (scale : R) (q : Nat → R) (count : Nat) (inBounds visible : Nat → Bool)
    (k v : Nat → Nat → R)
    (inside : ∀ n, visible n = true → inBounds n = true) :
    ((List.range count).filter visible).map (fun n =>
        (⟨dot D q (loaded (inBounds n) (k n)) * scale, loaded (inBounds n) (v n)⟩ : Key R Nat)) =
      ((List.range count).filter visible).map (fun n => keyOf D scale q (k n) (v n)) := by
  apply List.map_congr_left
  intro n member
  have loads := inside n (List.of_mem_filter member)
  rw [loaded_inside loads, loaded_inside loads, keyOf]

end loads

section loops

variable [Field R] [LinearOrder R] (e : Exponential R) {keys : List (Key R Nat)}
  {state : State R Nat} {size : Nat} (D : Nat) (scale : R) (q : Nat → R) (count : Nat)
  (inBounds visible : Nat → Bool) (k v : Nat → Nat → R)

/-- A guarded loop over masked lanes adds the visible columns. -/
theorem masked_guarded (represents : Represents e keys state) (positive : 0 < size)
    (inside : ∀ n, visible n = true → n < count)
    (loads : ∀ n, visible n = true → inBounds n = true) :
    Represents e
      (keys ++ ((List.range count).filter visible).map (fun n => keyOf D scale q (k n) (v n)))
      (state.loop e true count size
        (fun n => maskedLane D scale q (inBounds n) (visible n) (k n) (v n))) := by
  rw [← visible_keys D scale q count inBounds visible k v loads]
  exact represents.loop_guarded e positive inside

/-- So does one that is not guarded and has a visible column in its first tile. -/
theorem masked_first (represents : Represents e keys state) (positive : 0 < size)
    (inside : ∀ n, visible n = true → n < count)
    (loads : ∀ n, visible n = true → inBounds n = true)
    (first : ∃ n, n < size ∧ visible n = true) :
    Represents e
      (keys ++ ((List.range count).filter visible).map (fun n => keyOf D scale q (k n) (v n)))
      (state.loop e false count size
        (fun n => maskedLane D scale q (inBounds n) (visible n) (k n) (v n))) := by
  rw [← visible_keys D scale q count inBounds visible k v loads]
  exact represents.loop_first e positive inside first

theorem masked_unguarded (represents : Represents e keys state) (some : keys ≠ []) (positive : 0 < size)
    (inside : ∀ n, visible n = true → n < count)
    (loads : ∀ n, visible n = true → inBounds n = true) :
    Represents e
      (keys ++ ((List.range count).filter visible).map (fun n => keyOf D scale q (k n) (v n)))
      (state.loop e false count size
        (fun n => maskedLane D scale q (inBounds n) (visible n) (k n) (v n))) := by
  rw [← visible_keys D scale q count inBounds visible k v loads]
  exact represents.loop_unguarded e some positive inside

end loops

section launches

variable {β : Type*} (blockM batches heads rows channels : Nat) (row : Tensor4 β)

/-- What a program stores: the rows of its tile that exist. -/
def rowProgram (pidM pidB pidH : Nat) : List (Place × β) :=
  ((List.range blockM).map (fun lane => pidM * blockM + lane)).flatMap fun offsM =>
    if offsM < rows then
      (List.range channels).map (fun d => ((pidB, pidH, offsM, d), row pidB pidH offsM d))
    else []

/-- What the programs of a grid store. -/
def rowLaunch (tiles : Nat) : List (Place × β) :=
  (List.range tiles).flatMap fun pidM =>
    (List.range batches).flatMap fun pidB =>
      (List.range heads).flatMap fun pidH => rowProgram blockM rows channels row pidM pidB pidH

theorem row_tile (positive : 0 < blockM) {i : Nat} (inside : i < rows) :
    i / blockM < (rows + blockM - 1) / blockM := by
  rw [Nat.div_lt_iff_lt_mul positive]
  have reach := Nat.div_add_mod (rows + blockM - 1) blockM
  have small := Nat.mod_lt (rows + blockM - 1) positive
  rw [Nat.mul_comm] at reach
  omega

theorem rowLaunch_written {tiles b h i d : Nat} (positive : 0 < blockM) (tile : i / blockM < tiles)
    (batch : b < batches) (head : h < heads) (inside : i < rows) (channel : d < channels)
    (fresh : Place → β) :
    Stores.store fresh (rowLaunch blockM batches heads rows channels row tiles) (b, h, i, d) =
      row b h i d := by
  apply Stores.store_value
  · have whole := Nat.div_add_mod i blockM
    rw [Nat.mul_comm] at whole
    simp only [rowLaunch, rowProgram, List.mem_flatMap, List.mem_map, List.mem_range]
    refine ⟨i / blockM, tile, b, batch, h, head, i, ⟨i % blockM, Nat.mod_lt i positive, whole⟩, ?_⟩
    rw [if_pos inside]
    exact List.mem_map.mpr ⟨d, List.mem_range.mpr channel, rfl⟩
  · intro entry stored same
    simp only [rowLaunch, rowProgram, List.mem_flatMap] at stored
    obtain ⟨pidM, -, pidB, -, pidH, -, offsM, -, member⟩ := stored
    split at member
    case isFalse => simp at member
    case isTrue =>
      obtain ⟨channelOf, -, rfl⟩ := List.mem_map.mp member
      obtain ⟨rfl, rfl, rfl, rfl⟩ : pidB = b ∧ pidH = h ∧ offsM = i ∧ channelOf = d := by
        simpa using same
      rfl

end launches

/-- The channels of a head. -/
def headDim : Nat := 128

/-- The exponential of the real numbers. -/
noncomputable def realExponential : Exponential ℝ := ⟨Real.exp, Real.exp_pos, Real.exp_add⟩

end SpecBlock.Attention
