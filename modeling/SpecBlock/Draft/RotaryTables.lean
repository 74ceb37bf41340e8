import Mathlib.Algebra.Ring.Basic
import Mathlib.Algebra.Ring.Int.Defs
import Mathlib.Algebra.Ring.Nat
import Mathlib.Data.Nat.Cast.Defs

/-!
# Tables of the rotary embedding

The draft attention rotates queries and keys by tables of cosines and sines. The base tables have
one row per position. The plain path grows them when a call needs more positions and rotates by a
cast copy. The fused path joins them into one table for a kernel, which is rebuilt when it is missing,
on another device or too short. Growing drops the cast copy and the joined table.

The fused path never grows the base tables. A joined table that is too short is rebuilt just as
short, so the kernel reads past it. And the frequencies are a buffer of the module: a cast of the module
rounds them, and a growth after it counts and multiplies the positions in the narrow type.

Float32 is exact here, and a cosine or sine that has been computed keeps its number when its table is
cast. What the 16-bit types make of a position, a frequency or an angle is left open. Every table
carries the number of base tables built before it, which no code reads.
-/

namespace SpecBlock.Draft

/-- Types of table entries. -/
inductive DType where
  | float32
  | bfloat16
  | float16
deriving DecidableEq, Repr

/-- Where a table lies. -/
inductive Device where
  | cpu
  | cuda (index : Nat)
deriving DecidableEq, Repr

/-- A table of cosines and one of sines, built together. -/
structure CosSin (R : Type) where
  cos : List (List R)
  sin : List (List R)
  dtype : DType
  device : Device
  builtAt : Nat

/-- The table of the fused kernel: the cosines of a row and then its sines. -/
structure CosSinCache (R : Type) where
  rows : List (List R)
  device : Device
  builtAt : Nat

/-- `RotaryEmbedding`. The frequencies are a buffer with a dtype and a device of their own. The cast
copies of both tables are set together. -/
structure RotaryEmbedding (R : Type) where
  invFreq : List R
  freqDtype : DType
  freqDevice : Device
  base : CosSin R
  castCopy : Option (CosSin R)
  sglCosSinCache : Option (CosSinCache R)
  maxPos : Nat
  built : Nat

section rows

variable {R : Type} [NonAssocSemiring R] (function : R → R)

/-- What is left of a number that is stored in a type. Float32 keeps it, and the 16-bit types make of
it what `narrow` says. -/
def stored {R : Type} (narrow : DType → R → R) : DType → R → R
  | .float32, value => value
  | .bfloat16, value => narrow .bfloat16 value
  | .float16, value => narrow .float16 value

/-- The values of a function at the angles of a position. -/
def angleRow (invFreq : List R) (position : Nat) : List R :=
  invFreq.map (fun frequency => function ((position : R) * frequency))

/-- The base table of a function: both halves of a row are alike. The positions (`torch.arange`) and
their products with the frequencies (`torch.outer`) are numbers of the frequencies' type. -/
def baseRows (store : R → R) (invFreq : List R) (maxPos : Nat) : List (List R) :=
  (List.range maxPos).map (fun position : Nat =>
    let freqs := invFreq.map (fun frequency => store (store (position : R) * frequency))
    (freqs ++ freqs).map function)

/-- A row of the base table, where numbers are stored as they are. -/
theorem baseRows_getElem? (invFreq : List R) {maxPos position : Nat} (inside : position < maxPos) :
    (baseRows function id invFreq maxPos)[position]? =
      some (angleRow function invFreq position ++ angleRow function invFreq position) := by
  simp [baseRows, angleRow, inside, Function.comp_def]

@[simp] theorem baseRows_length (store : R → R) (invFreq : List R) (maxPos : Nat) :
    (baseRows function store invFreq maxPos).length = maxPos := by
  simp [baseRows]

@[simp] theorem angleRow_length (invFreq : List R) (position : Nat) :
    (angleRow function invFreq position).length = invFreq.length := by
  simp [angleRow]

end rows

namespace CosSin

variable {R : Type}

/-- The rows of the first positions. -/
def slice (seqLen : Nat) (tables : CosSin R) : CosSin R :=
  { tables with cos := tables.cos.take seqLen, sin := tables.sin.take seqLen }

end CosSin

namespace RotaryEmbedding

variable {R : Type} [NonAssocSemiring R] (narrow : DType → R → R) (cosine sine : R → R)

/-- `_build_cache`. The tables get the type and the device of the frequencies, and so do the positions
they are computed from. What was made from the tables before is dropped. -/
def buildCache (maxPos : Nat) (rope : RotaryEmbedding R) : RotaryEmbedding R :=
  { rope with
    base :=
      { cos := baseRows cosine (stored narrow rope.freqDtype) rope.invFreq maxPos
        sin := baseRows sine (stored narrow rope.freqDtype) rope.invFreq maxPos
        dtype := rope.freqDtype
        device := rope.freqDevice
        builtAt := rope.built + 1 }
    castCopy := none
    sglCosSinCache := none
    maxPos := maxPos
    built := rope.built + 1 }

/-- The constructor, after it has computed the frequencies. -/
def create (invFreq : List R) (device : Device) (maxPos : Nat) : RotaryEmbedding R :=
  buildCache narrow cosine sine maxPos
    ⟨invFreq, .float32, device, ⟨[], [], .float32, device, 0⟩, none, none, 0, 0⟩

/-- Moving the module, as in `.to(device=…, dtype=…)`, moves its buffers, the frequencies among them,
and neither the cast copy nor the joined table. -/
def move (dtype : DType) (device : Device) (rope : RotaryEmbedding R) : RotaryEmbedding R :=
  { rope with
    invFreq := rope.invFreq.map (stored narrow dtype)
    freqDtype := dtype
    freqDevice := device
    base := { rope.base with dtype := dtype, device := device } }

/-- The base tables joined for the kernel. -/
def joined (device : Device) (rope : RotaryEmbedding R) : CosSinCache R where
  rows := List.zipWith (fun cos sin => cos.take (cos.length / 2) ++ sin.take (cos.length / 2))
    rope.base.cos rope.base.sin
  device := device
  builtAt := rope.base.builtAt

/-- `get_sgl_cos_sin_cache`: the joined table, made anew where it is missing, elsewhere or too short. It
is made from the base tables as they are. -/
def getSglCosSinCache (seqLen : Nat) (device : Device) (rope : RotaryEmbedding R) :
    CosSinCache R × RotaryEmbedding R :=
  let cache :=
    match rope.sglCosSinCache with
    | some cache =>
      if cache.device ≠ device ∨ cache.rows.length < seqLen then rope.joined device else cache
    | none => rope.joined device
  (cache, { rope with sglCosSinCache := some cache })

/-- The copy of the base tables for a type and a device. -/
def castTo (dtype : DType) (device : Option Device) (rope : RotaryEmbedding R) : CosSin R :=
  let fresh := { rope.base with dtype := dtype, device := device.getD rope.base.device }
  match rope.castCopy with
  | none => fresh
  | some copy =>
    if copy.dtype ≠ dtype ∨ device.any (fun device => copy.device ≠ device) then fresh else copy

/-- `forward`: the plain path grows the base tables to a hundred rows more than it was asked for, and
hands out the asked rows of a cast copy. -/
def forward (seqLen : Nat) (dtype : Option DType) (device : Option Device)
    (rope : RotaryEmbedding R) : CosSin R × RotaryEmbedding R :=
  let rope := if rope.maxPos < seqLen then rope.buildCache narrow cosine sine (seqLen + 100) else rope
  match dtype with
  | none => (rope.base.slice seqLen, rope)
  | some dtype =>
    let copy := rope.castTo dtype device
    (copy.slice seqLen, { rope with castCopy := some copy })

end RotaryEmbedding

section rotation

variable {R : Type} [NonUnitalNonAssocRing R]

/-- The `rotate` of `apply_rope`: the second half, negated, and then the first. -/
def rotateHalves (head : List R) : List R :=
  (head.drop (head.length / 2)).map (fun value => -value) ++ head.take (head.length / 2)

/-- `apply_rope` on one head at one position. -/
def applyRope (cos sin head : List R) : List R :=
  List.zipWith (· + ·) (List.zipWith (· * ·) head cos) (List.zipWith (· * ·) (rotateHalves head) sin)

/-- A head turned by a row of cosines and a row of sines: its halves are the two coordinates. -/
def turned (cos sin head : List R) : List R :=
  let first := head.take (head.length / 2)
  let second := head.drop (head.length / 2)
  List.zipWith (· - ·) (List.zipWith (· * ·) first cos) (List.zipWith (· * ·) second sin) ++
    List.zipWith (· + ·) (List.zipWith (· * ·) second cos) (List.zipWith (· * ·) first sin)

/-- What the fused kernel does with the row of a position. -/
def kernelRope (row head : List R) : List R :=
  turned (row.take (row.length / 2)) (row.drop (row.length / 2)) head

end rotation

/-- What an attention forward is handed to rotate by. -/
inductive Handed (R : Type) where
  | plain (tables : CosSin R)
  | fused (cache : CosSinCache R)

namespace Handed

variable {R : Type}

/-- The positions that both tables have. -/
def rows : Handed R → Nat
  | .plain tables => min tables.cos.length tables.sin.length
  | .fused cache => cache.rows.length

/-- How many base tables had been built when the table was. -/
def builtAt : Handed R → Nat
  | .plain tables => tables.builtAt
  | .fused cache => cache.builtAt

/-- Rotate a head at a position. There is no result past the table. -/
def rotate [NonUnitalNonAssocRing R] (handed : Handed R) (position : Nat) (head : List R) :
    Option (List R) :=
  match handed with
  | .plain tables => do
    let cos ← tables.cos[position]?
    let sin ← tables.sin[position]?
    return applyRope cos sin head
  | .fused cache => do
    let row ← cache.rows[position]?
    return kernelRope row head

end Handed

/-- Events of a rotary embedding: an attention forward on one of the paths, or a move. -/
inductive RopeCall where
  | attend (fused : Bool) (maxPosition : Option Nat) (dtype : DType) (device : Device)
  | move (dtype : DType) (device : Device)
deriving DecidableEq, Repr

/-- `rope_len` of an attention forward. -/
def ropeLen (maxPosition : Option Nat) (maxPos : Nat) : Nat :=
  match maxPosition with
  | some maxPosition => maxPosition + 1
  | none => maxPos

/-- What one attention forward asked for and was handed. -/
structure RopeOutcome (R : Type) where
  ropeLen : Nat
  handed : Handed R
  built : Nat

section run

variable {R : Type} [NonAssocSemiring R] (narrow : DType → R → R) (cosine sine : R → R)

/-- The RoPE paths of one attention forward. -/
def attendRope (fused : Bool) (maxPosition : Option Nat) (dtype : DType) (device : Device)
    (rope : RotaryEmbedding R) : RopeOutcome R × RotaryEmbedding R :=
  let length := ropeLen maxPosition rope.maxPos
  if fused then
    let handed := rope.getSglCosSinCache length device
    (⟨length, .fused handed.1, handed.2.built⟩, handed.2)
  else
    let handed := rope.forward narrow cosine sine length (some dtype) (some device)
    (⟨length, .plain handed.1, handed.2.built⟩, handed.2)

/-- A sequence of events. -/
def runRope : List RopeCall → RotaryEmbedding R → List (RopeOutcome R)
  | [], _ => []
  | .attend fused maxPosition dtype device :: rest, rope =>
    let attended := attendRope narrow cosine sine fused maxPosition dtype device rope
    attended.1 :: runRope rest attended.2
  | .move dtype device :: rest, rope => runRope rest (rope.move narrow dtype device)

end run

/-- The positions of the base tables after an attention forward: the plain path grows them. -/
def grownPos (fused : Bool) (length maxPos : Nat) : Nat :=
  if fused = false ∧ maxPos < length then length + 100 else maxPos

/-- Every forward on the fused path asks for no more positions than the base tables have when it is
made, that is the configured number or what an earlier plain forward grew them to. -/
def FusedFits : Nat → List RopeCall → Prop
  | _, [] => True
  | maxPos, .attend fused maxPosition _ _ :: rest =>
    (fused = true → ropeLen maxPosition maxPos ≤ maxPos) ∧
      FusedFits (grownPos fused (ropeLen maxPosition maxPos) maxPos) rest
  | maxPos, .move _ _ :: rest => FusedFits maxPos rest

/-- The plain path grows the base tables only while the module has been in float32: after a cast to a
16-bit type no forward on it asks for more positions than the base tables have. -/
def GrowsWide : Nat → Bool → List RopeCall → Prop
  | _, _, [] => True
  | maxPos, wide, .attend fused maxPosition _ _ :: rest =>
    (fused = false → maxPos < ropeLen maxPosition maxPos → wide = true) ∧
      GrowsWide (grownPos fused (ropeLen maxPosition maxPos) maxPos) wide rest
  | maxPos, wide, .move dtype _ :: rest => GrowsWide maxPos (wide && decide (dtype = .float32)) rest

/-- A forward is handed enough rows, row `p` turns by `p` times the frequencies of the configuration,
and the table is not older than the base tables. -/
structure RotatesRight {R : Type} [NonAssocRing R] (cosine sine : R → R) (invFreq : List R)
    (outcome : RopeOutcome R) : Prop where
  enough : outcome.ropeLen ≤ outcome.handed.rows
  rotates : ∀ position < outcome.ropeLen, ∀ head : List R, head.length = 2 * invFreq.length →
    outcome.handed.rotate position head =
      some (turned (angleRow cosine invFreq position) (angleRow sine invFreq position) head)
  current : outcome.handed.builtAt = outcome.built

section rotation

variable {R : Type} [NonUnitalNonAssocRing R]

theorem applyRope_eq (cos sin head : List R) (width : head.length = 2 * cos.length)
    (same : sin.length = cos.length) :
    applyRope (cos ++ cos) (sin ++ sin) head = turned cos sin head := by
  have half : head.length / 2 = cos.length := by omega
  obtain ⟨first, second, parts, firstLength, secondLength⟩ : ∃ first second : List R,
      head = first ++ second ∧ first.length = cos.length ∧ second.length = cos.length :=
    ⟨head.take cos.length, head.drop cos.length, (List.take_append_drop _ _).symm, by simp; omega,
      by simp; omega⟩
  subst parts
  have negated (values others : List R) : List.zipWith (· * ·) (values.map (fun value => -value)) others =
      (List.zipWith (· * ·) values others).map (fun value => -value) := by
    simp [List.map_zipWith, List.zipWith_map_left]
  have difference (values others : List R) :
      List.zipWith (· + ·) values (others.map (fun value => -value)) =
        List.zipWith (· - ·) values others := by
    simp [List.zipWith_map_right, sub_eq_add_neg]
  simp only [applyRope, rotateHalves, turned, half]
  rw [List.take_left' firstLength, List.drop_left' firstLength, List.zipWith_append firstLength,
    List.zipWith_append (by simp [secondLength, same]), List.zipWith_append (by
      simp [firstLength, secondLength, same]), negated, difference]

theorem kernelRope_eq (cos sin head : List R) (same : sin.length = cos.length) :
    kernelRope (cos ++ sin) head = turned cos sin head := by
  have half : (cos ++ sin).length / 2 = cos.length := by
    rw [List.length_append]
    omega
  rw [kernelRope, half, List.take_left, List.drop_left]

end rotation

section tables

variable {R : Type} [NonAssocRing R] {narrow : DType → R → R} {cosine sine : R → R}

/-- The base tables hold the angles of the configured frequencies, and what is cached was made from
them. As long as the module has been in float32 its frequencies are the configured ones. -/
structure Holds (cosine sine : R → R) (invFreq : List R) (wide : Bool) (rope : RotaryEmbedding R) :
    Prop where
  freqs : wide = true → rope.invFreq = invFreq ∧ rope.freqDtype = .float32
  cos : rope.base.cos = baseRows cosine id invFreq rope.maxPos
  sin : rope.base.sin = baseRows sine id invFreq rope.maxPos
  current : rope.base.builtAt = rope.built
  copied : ∀ copy ∈ rope.castCopy, copy.cos = rope.base.cos ∧ copy.sin = rope.base.sin ∧
    copy.builtAt = rope.built
  joined : ∀ cache ∈ rope.sglCosSinCache, cache.rows = (rope.joined cache.device).rows ∧
    cache.builtAt = rope.built

namespace Holds

variable {invFreq : List R} {wide : Bool} {rope : RotaryEmbedding R}

/-- Base tables that are built from the configured frequencies in float32 hold their angles, and
building them drops what was made from the earlier ones. -/
theorem buildCache (freqs : rope.invFreq = invFreq) (dtype : rope.freqDtype = .float32)
    (maxPos : Nat) : Holds cosine sine invFreq wide (rope.buildCache narrow cosine sine maxPos) where
  freqs := fun _ => ⟨freqs, dtype⟩
  cos := by
    simp only [RotaryEmbedding.buildCache, freqs, dtype]
    rfl
  sin := by
    simp only [RotaryEmbedding.buildCache, freqs, dtype]
    rfl
  current := rfl
  copied := by simp [RotaryEmbedding.buildCache]
  joined := by simp [RotaryEmbedding.buildCache]

/-- A move changes no table. The frequencies stay as they are if it is one to float32. -/
theorem move (holds : Holds cosine sine invFreq wide rope) (dtype : DType) (device : Device) :
    Holds cosine sine invFreq (wide && decide (dtype = .float32)) (rope.move narrow dtype device) := by
  refine ⟨fun still => ?_, holds.cos, holds.sin, holds.current, holds.copied, holds.joined⟩
  rw [Bool.and_eq_true, decide_eq_true_eq] at still
  obtain ⟨before, rfl⟩ := still
  refine ⟨?_, rfl⟩
  rw [← (holds.freqs before).1]
  exact List.map_id _

/-- The joined table: one row per position of the base tables. -/
theorem joined_rows (holds : Holds cosine sine invFreq wide rope) (device : Device) :
    (rope.joined device).rows.length = rope.maxPos ∧
      ∀ position < rope.maxPos, (rope.joined device).rows[position]? =
        some (angleRow cosine invFreq position ++ angleRow sine invFreq position) := by
  have halves (function : R → R) (position : Nat) :
      (angleRow function invFreq position ++ angleRow function invFreq position).take
          ((angleRow cosine invFreq position ++ angleRow cosine invFreq position).length / 2) =
        angleRow function invFreq position := by
    have half : (angleRow cosine invFreq position ++ angleRow cosine invFreq position).length / 2 =
        (angleRow function invFreq position).length := by
      simp only [List.length_append, angleRow_length]
      omega
    rw [half, List.take_left]
  constructor
  · simp [RotaryEmbedding.joined, holds.cos, holds.sin]
  · intro position inside
    simp only [RotaryEmbedding.joined, holds.cos, holds.sin]
    rw [List.getElem?_zipWith, baseRows_getElem? cosine invFreq inside,
      baseRows_getElem? sine invFreq inside]
    simp only [halves]

/-- The fused path is handed the joined table of the base tables. -/
theorem getSglCosSinCache (holds : Holds cosine sine invFreq wide rope) (seqLen : Nat)
    (device : Device) :
    ((rope.getSglCosSinCache seqLen device).1.rows = (rope.joined device).rows ∧
      (rope.getSglCosSinCache seqLen device).1.builtAt = rope.built) ∧
      Holds cosine sine invFreq wide (rope.getSglCosSinCache seqLen device).2 := by
  have handed : (rope.getSglCosSinCache seqLen device).1.rows = (rope.joined device).rows ∧
      (rope.getSglCosSinCache seqLen device).1.builtAt = rope.built := by
    unfold RotaryEmbedding.getSglCosSinCache
    cases cached : rope.sglCosSinCache with
    | none => exact ⟨rfl, holds.current⟩
    | some cache =>
      dsimp only
      split_ifs
      · exact ⟨rfl, holds.current⟩
      · exact holds.joined cache cached
  refine ⟨handed, holds.freqs, holds.cos, holds.sin, holds.current, holds.copied, ?_⟩
  intro cache kept
  injection kept with same
  rw [← same]
  exact handed

/-- The cast copy that is handed out has the numbers of the base tables. -/
theorem castTo (holds : Holds cosine sine invFreq wide rope) (dtype : DType) (device : Option Device) :
    (rope.castTo dtype device).cos = rope.base.cos ∧ (rope.castTo dtype device).sin = rope.base.sin ∧
      (rope.castTo dtype device).builtAt = rope.built := by
  unfold RotaryEmbedding.castTo
  cases cached : rope.castCopy with
  | none => exact ⟨rfl, rfl, holds.current⟩
  | some copy =>
    dsimp only
    split_ifs
    · exact ⟨rfl, rfl, holds.current⟩
    · exact holds.copied copy cached

/-- The plain path is handed the rows it asks for, of tables that are long enough, if it grows them in
float32 or not at all. -/
theorem forward (holds : Holds cosine sine invFreq wide rope) (seqLen : Nat)
    (grows : rope.maxPos < seqLen → wide = true) (dtype : DType) (device : Device) :
    ∃ maxPos, seqLen ≤ maxPos ∧ maxPos = grownPos false seqLen rope.maxPos ∧
      (rope.forward narrow cosine sine seqLen (some dtype) (some device)).2.maxPos = maxPos ∧
      Holds cosine sine invFreq wide (rope.forward narrow cosine sine seqLen (some dtype) (some device)).2 ∧
      (rope.forward narrow cosine sine seqLen (some dtype) (some device)).1.cos =
        (baseRows cosine id invFreq maxPos).take seqLen ∧
      (rope.forward narrow cosine sine seqLen (some dtype) (some device)).1.sin =
        (baseRows sine id invFreq maxPos).take seqLen ∧
      (rope.forward narrow cosine sine seqLen (some dtype) (some device)).1.builtAt =
        (rope.forward narrow cosine sine seqLen (some dtype) (some device)).2.built := by
  -- the tables after a growth, if one was needed
  obtain ⟨grown, grew, kept, long, size⟩ : ∃ grown,
      grown = (if rope.maxPos < seqLen then rope.buildCache narrow cosine sine (seqLen + 100) else rope) ∧
      Holds cosine sine invFreq wide grown ∧ seqLen ≤ grown.maxPos ∧
      grown.maxPos = grownPos false seqLen rope.maxPos := by
    refine ⟨_, rfl, ?_⟩
    split_ifs with short
    · obtain ⟨freqs, float32⟩ := holds.freqs (grows short)
      exact ⟨buildCache freqs float32 _, Nat.le_add_right _ _, by simp [grownPos, short,
        RotaryEmbedding.buildCache]⟩
    · exact ⟨holds, Nat.le_of_not_lt short, by simp [grownPos, short]⟩
  obtain ⟨cos, sin, current⟩ := kept.castTo dtype (some device)
  have ran : rope.forward narrow cosine sine seqLen (some dtype) (some device) =
      ((grown.castTo dtype (some device)).slice seqLen,
        { grown with castCopy := some (grown.castTo dtype (some device)) }) := by
    rw [grew]
    rfl
  rw [ran]
  refine ⟨grown.maxPos, long, size, rfl, ?_, ?_, ?_, current⟩
  · refine ⟨kept.freqs, kept.cos, kept.sin, kept.current, ?_, kept.joined⟩
    intro copy copied
    injection copied with same
    rw [← same]
    exact ⟨cos, sin, current⟩
  · show (grown.castTo dtype (some device)).cos.take seqLen = _
    rw [cos, kept.cos]
  · show (grown.castTo dtype (some device)).sin.take seqLen = _
    rw [sin, kept.sin]

/-- A plain forward rotates right, if it grows the tables in float32 or not at all. -/
theorem plain_right (holds : Holds cosine sine invFreq wide rope) (maxPosition : Option Nat)
    (grows : rope.maxPos < ropeLen maxPosition rope.maxPos → wide = true) (dtype : DType)
    (device : Device) :
    RotatesRight cosine sine invFreq
      (attendRope narrow cosine sine false maxPosition dtype device rope).1 := by
  obtain ⟨maxPos, long, -, -, -, cos, sin, current⟩ :=
    @forward R _ narrow cosine sine invFreq wide rope holds _ grows dtype device
  constructor
  · show ropeLen maxPosition rope.maxPos ≤ min (List.length _) (List.length _)
    rw [cos, sin, List.length_take, List.length_take, baseRows_length, baseRows_length]
    omega
  · intro position inside head width
    have within : position < ropeLen maxPosition rope.maxPos := inside
    have row (function : R → R) :
        ((baseRows function id invFreq maxPos).take (ropeLen maxPosition rope.maxPos))[position]? =
          some (angleRow function invFreq position ++ angleRow function invFreq position) := by
      rw [List.getElem?_take_of_lt within, baseRows_getElem? function invFreq (by omega)]
    simp only [attendRope, Bool.false_eq_true, if_false, Handed.rotate, cos, sin, row,
      Option.bind_eq_bind, Option.bind_some, Option.pure_def]
    rw [applyRope_eq _ _ _ (by simp [width]) (by simp)]
  · exact current

/-- A fused forward rotates right exactly when the base tables have the positions it asks for. -/
theorem fused_right_iff (holds : Holds cosine sine invFreq wide rope) (maxPosition : Option Nat)
    (dtype : DType) (device : Device) :
    RotatesRight cosine sine invFreq
        (attendRope narrow cosine sine true maxPosition dtype device rope).1 ↔
      ropeLen maxPosition rope.maxPos ≤ rope.maxPos := by
  obtain ⟨⟨rows, current⟩, -⟩ :=
    holds.getSglCosSinCache (ropeLen maxPosition rope.maxPos) device
  obtain ⟨length, row⟩ := holds.joined_rows device
  constructor
  · intro right
    have enough : ropeLen maxPosition rope.maxPos ≤ List.length _ := right.enough
    rwa [rows, length] at enough
  · intro fits
    constructor
    · show ropeLen maxPosition rope.maxPos ≤ List.length _
      rwa [rows, length]
    · intro position inside head width
      have within : position < ropeLen maxPosition rope.maxPos := inside
      simp only [attendRope, if_true, Handed.rotate, rows, row position (by omega),
        Option.bind_eq_bind, Option.bind_some, Option.pure_def]
      rw [kernelRope_eq _ _ _ (by simp)]
    · exact current

theorem attend (holds : Holds cosine sine invFreq wide rope) (fused : Bool) (maxPosition : Option Nat)
    (grows : fused = false → rope.maxPos < ropeLen maxPosition rope.maxPos → wide = true)
    (dtype : DType) (device : Device) :
    Holds cosine sine invFreq wide (attendRope narrow cosine sine fused maxPosition dtype device rope).2 ∧
      (attendRope narrow cosine sine fused maxPosition dtype device rope).2.maxPos =
        grownPos fused (ropeLen maxPosition rope.maxPos) rope.maxPos := by
  cases fused with
  | false =>
    obtain ⟨maxPos, -, grown, size, kept, -⟩ :=
      @forward R _ narrow cosine sine invFreq wide rope holds _ (grows rfl) dtype device
    exact ⟨kept, size.trans grown⟩
  | true =>
    refine ⟨(holds.getSglCosSinCache (ropeLen maxPosition rope.maxPos) device).2, ?_⟩
    simp [attendRope, grownPos, RotaryEmbedding.getSglCosSinCache]

/-- Every forward of a run that grows the tables in float32 only rotates right exactly when the fused
ones fit. -/
theorem run_right_iff (calls : List RopeCall) :
    ∀ {wide : Bool} {rope : RotaryEmbedding R}, Holds cosine sine invFreq wide rope →
      GrowsWide rope.maxPos wide calls →
      ((∀ outcome ∈ runRope narrow cosine sine calls rope, RotatesRight cosine sine invFreq outcome) ↔
        FusedFits rope.maxPos calls) := by
  induction calls with
  | nil => simp [runRope, FusedFits]
  | cons call rest ih =>
    intro wide rope holds grows
    cases call with
    | move dtype device => exact ih (holds.move dtype device) grows
    | attend fused maxPosition dtype device =>
      obtain ⟨now, later⟩ := grows
      obtain ⟨kept, size⟩ :=
        @attend R _ narrow cosine sine invFreq wide rope holds fused maxPosition now dtype device
      rw [runRope, List.forall_mem_cons, ih kept (size ▸ later), size, FusedFits]
      cases fused with
      | false => simp [holds.plain_right maxPosition (now rfl) dtype device]
      | true => simp [holds.fused_right_iff maxPosition dtype device]

end Holds

/-- In every run that grows the base tables only while the module has been in float32, every attention
forward is handed enough rows of the current tables, and so rotates every head by its position's angles,
exactly when no fused forward asks for more positions than the base tables have. -/
theorem tables_right_iff (narrow : DType → R → R) (cosine sine : R → R) (invFreq : List R)
    (device : Device) (maxPositionEmbeddings : Nat) (calls : List RopeCall)
    (wide : GrowsWide maxPositionEmbeddings true calls) :
    (∀ outcome ∈ runRope narrow cosine sine calls
        (RotaryEmbedding.create narrow cosine sine invFreq device maxPositionEmbeddings),
      RotatesRight cosine sine invFreq outcome) ↔ FusedFits maxPositionEmbeddings calls := by
  have built : Holds cosine sine invFreq true
      (RotaryEmbedding.create narrow cosine sine invFreq device maxPositionEmbeddings) := by
    unfold RotaryEmbedding.create
    exact @Holds.buildCache R _ narrow cosine sine invFreq true _ rfl rfl maxPositionEmbeddings
  exact Holds.run_right_iff calls built wide

/-- Bfloat16 has eight significant bits: between 256 and 512 it keeps the even numbers, and a number
half way goes to the multiple of four. -/
def narrowInt (_ : DType) (value : Int) : Int :=
  if 256 < value ∧ value < 512 ∧ value % 2 = 1 then value + value % 4 - 2 else value

/-- A plain forward grows the tables in float32, then the module is cast and moved, and a fused forward
reads the grown rows. Both forwards rotate right. -/
theorem tables_right_grown :
    (runRope narrowInt (id : Int → Int) id
        [.attend false (some 2) .float32 .cpu, .move .bfloat16 (.cuda 0),
          .attend true (some 60) .bfloat16 (.cuda 0)]
        (RotaryEmbedding.create narrowInt (id : Int → Int) id [1] .cpu 1)).length = 2 ∧
      ∀ outcome ∈ runRope narrowInt (id : Int → Int) id
        [.attend false (some 2) .float32 .cpu, .move .bfloat16 (.cuda 0),
          .attend true (some 60) .bfloat16 (.cuda 0)]
        (RotaryEmbedding.create narrowInt (id : Int → Int) id [1] .cpu 1),
      RotatesRight (id : Int → Int) id [1] outcome :=
  ⟨by simp [runRope], (tables_right_iff narrowInt id id [1] .cpu 1 _ (by simp [GrowsWide])).mpr
    (by simp [FusedFits, grownPos, ropeLen])⟩

/-- One configured position and a fused forward at position one: the table has one row. And a plain
forward at position 257 after a cast to bfloat16: its row is that of position 256. -/
theorem tables_wrong :
    (¬ ∀ outcome ∈ runRope narrowInt (id : Int → Int) id
        [.attend true (some 1) .bfloat16 (.cuda 0)]
        (RotaryEmbedding.create narrowInt (id : Int → Int) id [1] (.cuda 0) 1),
      RotatesRight (id : Int → Int) id [1] outcome) ∧
    ¬ ∀ outcome ∈ runRope narrowInt (id : Int → Int) id
        [.move .bfloat16 (.cuda 0), .attend false (some 257) .bfloat16 (.cuda 0)]
        (RotaryEmbedding.create narrowInt (id : Int → Int) id [1] (.cuda 0) 1),
      RotatesRight (id : Int → Int) id [1] outcome := by
  constructor
  · intro right
    rw [runRope, List.forall_mem_cons] at right
    have enough : (2 : Nat) ≤ 1 := right.1.enough
    omega
  · intro right
    rw [runRope, runRope, List.forall_mem_cons] at right
    have rotated := right.1.rotates 257 (by decide) [1, 0] rfl
    revert rotated
    simp [attendRope, ropeLen, RotaryEmbedding.create, RotaryEmbedding.move, RotaryEmbedding.buildCache,
      RotaryEmbedding.forward, RotaryEmbedding.castTo, CosSin.slice, Handed.rotate, baseRows, stored,
      narrowInt, applyRope, rotateHalves, turned, angleRow]

end tables

end SpecBlock.Draft
