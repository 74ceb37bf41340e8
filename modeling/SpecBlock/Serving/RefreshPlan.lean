import Mathlib.Algebra.Ring.Int.Defs
import Mathlib.Algebra.Ring.Nat
import SpecBlock.Foundation.Stores

/-!
# The refresh plan

A refresh turns the accepted chains of a batch, lying one after the other, into padded
rows: token and hidden rows of a fixed capacity, rope positions, and counts. On a
contiguous device tensor two kernels fill freshly allocated buffers; otherwise the plan is
computed from offsets, clamped gathers and masks. With an output capacity the plan also
appends the allocated cross slots to every row's existing ones by a scatter whose
duplicate targets have no promised order.

Index arithmetic is unbounded here. Tensors are rectangles of rows.
-/

namespace SpecBlock.Serving

open Stores

/-- A raised `ValueError` with its text. -/
structure ValueError where
  message : String
  deriving DecidableEq, Repr

/-- A matrix of rows of one width. -/
structure Matrix2 (α : Type) where
  width : Nat
  rows : List (List α)
  rectangular : ∀ row ∈ rows, row.length = width

namespace Matrix2

variable {α : Type}

/-- A cell, with a value for cells outside. -/
def cell (matrix : Matrix2 α) (outside : α) (row column : Nat) : α :=
  (matrix.rows.getD row []).getD column outside

end Matrix2

/-- What a refresh is planned from. -/
structure RefreshInputs (V T : Type) where
  flatChainTokens : List T
  flatChainHidden : Matrix2 V
  acceptLengths : List Nat
  crossPositions : List Int
  existingCrossLoc : Matrix2 Nat
  existingCrossCounts : List Nat
  allocatedCrossLoc : Matrix2 Nat

/-- Refresh inputs of fixed capacity and the plan for the persistent append. -/
structure SpecBlockRefreshTensorPlan (V T : Type) where
  hidden : List (List (List V))
  tokens : List (List T)
  posIds : List (List Int)
  nPerReq : List Nat
  chainMask : List (List Bool)
  acceptOverflow : List Bool
  startPositions : List Int
  crossLoc : Option (List (List Nat))
  crossCounts : List Nat
  newCrossValidSlots : List Nat
  crossOverflow : Option (List Bool)

/-- Running totals. -/
def cumsum : Nat → List Nat → List Nat
  | _, [] => []
  | total, count :: counts => (total + count) :: cumsum (total + count) counts

/-- Where each row starts among rows that follow one another. -/
def chainOffsets (counts : List Nat) : List Nat := List.zipWith (· - ·) (cumsum 0 counts) counts

theorem starts_cumsum (total : Nat) (counts : List Nat) (row : Nat) (inside : row < counts.length) :
    (List.zipWith (· - ·) (cumsum total counts) counts).getD row 0 =
      total + (counts.take row).sum := by
  induction counts generalizing total row with
  | nil => simp at inside
  | cons count counts ih =>
    cases row with
    | zero => simp [cumsum]
    | succ row =>
      have within : row < counts.length := by simpa using inside
      rw [cumsum, List.zipWith_cons_cons, List.getD_cons_succ, ih _ _ within,
        List.take_succ_cons, List.sum_cons]
      omega

/-- Rows that follow one another start behind the earlier ones. -/
theorem chainOffsets_getD (counts : List Nat) (row : Nat) (inside : row < counts.length) :
    (chainOffsets counts).getD row 0 = (counts.take row).sum := by
  simpa [chainOffsets] using starts_cumsum 0 counts row inside

/-- Pack rows that follow one another into rows of a capacity: clamped gathers, and zeros
where a row is over. -/
def packFlatChains {α : Type} (zero : α) (flat : List α) (counts : List Nat) (capacity : Nat) :
    List (List α) × List (List Bool) :=
  ((List.range counts.length).map (fun row => (List.range capacity).map (fun column =>
      if column < counts.getD row 0 then
        flat.getD (min ((chainOffsets counts).getD row 0 + column) (flat.length - 1)) zero
      else zero)),
    (List.range counts.length).map (fun row => (List.range capacity).map (fun column =>
      decide (column < counts.getD row 0))))

namespace RefreshInputs

variable {V T : Type}

/-- Requests of the batch. -/
def batchSize (inputs : RefreshInputs V T) : Nat := inputs.acceptLengths.length

/-- Chain rows the allocated slots are for. -/
def acceptCapacity (inputs : RefreshInputs V T) (K : Nat) : Nat :=
  inputs.allocatedCrossLoc.width / K

/-- Chain rows of each request, the bonus token included. -/
def nPerReq (inputs : RefreshInputs V T) : List Nat := inputs.acceptLengths.map (· + 1)

/-- Validation of the arguments. -/
def check (inputs : RefreshInputs V T) (K : Nat) (outputCrossCapacity : Option Nat) :
    Except ValueError Unit :=
  if K = 0 then .error ⟨s!"K must be positive, got {K}."⟩
  else if outputCrossCapacity = some 0 then
    .error ⟨"output_cross_capacity must be positive, got 0."⟩
  else if inputs.flatChainHidden.rows.length ≠ inputs.flatChainTokens.length ∨
      inputs.crossPositions.length ≠ inputs.acceptLengths.length ∨
      inputs.existingCrossCounts.length ≠ inputs.acceptLengths.length ∨
      inputs.existingCrossLoc.rows.length ≠ inputs.batchSize ∨
      inputs.allocatedCrossLoc.rows.length ≠ inputs.batchSize then
    .error ⟨"Refresh plan batch dimensions must agree."⟩
  else if inputs.allocatedCrossLoc.width % K ≠ 0 then
    .error ⟨s!"allocated_cross_loc width must be a multiple of K, got width={inputs.allocatedCrossLoc.width}, K={K}."⟩
  else .ok ()

/-- Token at a column: shifted by one within the chain, the last one repeated. -/
def token [Zero T] (inputs : RefreshInputs V T) (row column : Nat) : T :=
  let tokenSource := min (column + 1) (inputs.nPerReq.getD row 0 - 1)
  let index := min ((chainOffsets inputs.nPerReq).getD row 0 + tokenSource)
    (inputs.flatChainTokens.length - 1)
  if column < inputs.nPerReq.getD row 0 then inputs.flatChainTokens.getD index 0 else 0

/-- Start position of a request: kept when nothing was accepted, one further otherwise. -/
def startPosition (inputs : RefreshInputs V T) (row : Nat) : Int :=
  inputs.crossPositions.getD row 0 + if 0 < inputs.acceptLengths.getD row 0 then 1 else 0

/-- Offsets of the rope positions of a row: chain column plus block slot. -/
def posColumns (capacity K : Nat) : List Nat :=
  (List.range capacity).flatMap (fun column => (List.range K).map (fun slot => column + slot))

/-- The plan without the append. -/
def plainPlan [Zero V] [Zero T] (inputs : RefreshInputs V T) (K : Nat) :
    SpecBlockRefreshTensorPlan V T :=
  let capacity := inputs.acceptCapacity K
  let packed := packFlatChains (List.replicate inputs.flatChainHidden.width 0)
    inputs.flatChainHidden.rows inputs.nPerReq capacity
  { hidden := packed.1
    tokens := (List.range inputs.batchSize).map (fun row =>
      (List.range capacity).map (inputs.token row))
    posIds := (List.range inputs.batchSize).map (fun row =>
      (posColumns capacity K).map (fun (column : Nat) => inputs.startPosition row + 1 + (column : Int)))
    nPerReq := inputs.nPerReq
    chainMask := packed.2
    acceptOverflow := inputs.nPerReq.map (fun count => decide (capacity < count))
    startPositions := (List.range inputs.batchSize).map inputs.startPosition
    crossLoc := none
    crossCounts := List.zipWith (· + ·) inputs.existingCrossCounts (inputs.nPerReq.map (· * K))
    newCrossValidSlots := inputs.nPerReq.map (· * K)
    crossOverflow := none }

/-- The output rows before the append: the existing slots, cut or padded with zeros. -/
def existingCopy (inputs : RefreshInputs V T) (capacity : Nat) (place : Nat × Nat) : Nat :=
  if place.2 < min inputs.existingCrossLoc.width capacity then
    inputs.existingCrossLoc.cell 0 place.1 place.2
  else 0

/-- Where the lane of an append goes: behind the existing slots, clamped to the last column. -/
def safeColumn (inputs : RefreshInputs V T) (capacity row lane : Nat) : Nat :=
  min (inputs.existingCrossCounts.getD row 0 + lane) (capacity - 1)

/-- Stores of the append. A padding lane stores what its target held before. -/
def appendStores (inputs : RefreshInputs V T) (K capacity : Nat) : List ((Nat × Nat) × Nat) :=
  (List.range inputs.batchSize).flatMap (fun row =>
    (List.range inputs.allocatedCrossLoc.width).map (fun lane =>
      let place := (row, inputs.safeColumn capacity row lane)
      (place, if lane < inputs.nPerReq.getD row 0 * K then inputs.allocatedCrossLoc.cell 0 row lane
        else inputs.existingCopy capacity place)))

/-- The plan, computed without the fused kernels; `scatter` stores in its own order. -/
def buildSpecblockRefreshTensorPlan [Zero V] [Zero T]
    (scatter : (Nat × Nat → Nat) → List ((Nat × Nat) × Nat) → Nat × Nat → Nat)
    (inputs : RefreshInputs V T) (K : Nat) (outputCrossCapacity : Option Nat) :
    Except ValueError (SpecBlockRefreshTensorPlan V T) := do
  inputs.check K outputCrossCapacity
  match outputCrossCapacity with
  | none => return inputs.plainPlan K
  | some capacity =>
    let crossLoc := scatter (inputs.existingCopy capacity) (inputs.appendStores K capacity)
    return { inputs.plainPlan K with
      crossLoc := some ((List.range inputs.batchSize).map (fun row =>
        (List.range capacity).map (fun column => crossLoc (row, column))))
      crossOverflow := some ((inputs.plainPlan K).crossCounts.map (fun count =>
        decide (capacity < count))) }

end RefreshInputs

/-- The power of two a block is rounded up to. -/
def nextPowerOf2 (n : Nat) : Nat :=
  let n := n - 1
  let n := n ||| (n >>> 1)
  let n := n ||| (n >>> 2)
  let n := n ||| (n >>> 4)
  let n := n ||| (n >>> 8)
  let n := n ||| (n >>> 16)
  let n := n ||| (n >>> 32)
  n + 1

/-- A masked load. -/
def load {α : Type} (buffer : Nat → α) (address : Nat) (mask : Bool) (other : α) : α :=
  if mask then buffer address else other

/-- Masked stores of the lanes of a program. -/
def maskedStores {α : Type} (lanes : List Nat) (base : Nat) (mask : Nat → Bool) (value : Nat → α) :
    List (Nat × α) :=
  (lanes.filter mask).map (fun lane => (base + lane, value lane))

namespace RefreshInputs

variable {V T : Type}

/-- Chain rows before a request, summed over the lanes of a power-of-two block. -/
def sourceOffset (inputs : RefreshInputs V T) (batchIdx : Nat) : Nat :=
  ((List.range (nextPowerOf2 inputs.batchSize)).map (fun lane =>
    load (fun address => (inputs.acceptLengths.getD address 0 : Int)) lane
      (decide (lane < batchIdx)) (-1) + 1)).sum.toNat

/-- The flat hidden rows in memory. -/
def flatHidden [Zero V] (inputs : RefreshInputs V T) (address : Nat) : V :=
  inputs.flatChainHidden.cell 0 (address / inputs.flatChainHidden.width)
    (address % inputs.flatChainHidden.width)

/-- Hidden columns one program handles. -/
def blockHidden : Nat := 256

/-- Stores of one program of `_pack_refresh_hidden_kernel`. -/
def packRefreshHidden [Zero V] (inputs : RefreshInputs V T) (acceptCapacity row hiddenBlock : Nat) :
    List (Nat × V) :=
  let hiddenSize := inputs.flatChainHidden.width
  let batchIdx := row / acceptCapacity
  let column := row % acceptCapacity
  let sourceRow := inputs.sourceOffset batchIdx + column
  let count := inputs.acceptLengths.getD batchIdx 0 + 1
  let hiddenOffsets := (List.range blockHidden).map (hiddenBlock * blockHidden + ·)
  maskedStores hiddenOffsets (row * hiddenSize) (fun offset => decide (offset < hiddenSize))
    (fun offset => load inputs.flatHidden (sourceRow * hiddenSize + offset)
      (decide (column < count ∧ offset < hiddenSize)) 0)

/-- Output buffers of the fused planner. -/
structure Buffers (V T : Type) where
  hidden : Nat → V
  tokens : Nat → T
  posIds : Nat → Int
  nPerReq : Nat → Nat
  chainMask : Nat → Bool
  acceptOverflow : Nat → Bool
  startPositions : Nat → Int
  crossCounts : Nat → Nat
  newCrossValidSlots : Nat → Nat

/-- Stores of the fused planner, buffer by buffer. -/
structure BufferStores (V T : Type) where
  hidden : List (Nat × V)
  tokens : List (Nat × T)
  posIds : List (Nat × Int)
  nPerReq : List (Nat × Nat)
  chainMask : List (Nat × Bool)
  acceptOverflow : List (Nat × Bool)
  startPositions : List (Nat × Int)
  crossCounts : List (Nat × Nat)
  newCrossValidSlots : List (Nat × Nat)

/-- Stores of one program of `_pack_refresh_metadata_kernel`; it stores no hidden rows. -/
def packRefreshMetadata [Zero T] (inputs : RefreshInputs V T) (K acceptCapacity batchIdx : Nat) :
    BufferStores V T :=
  let acceptLength := inputs.acceptLengths.getD batchIdx 0
  let count := acceptLength + 1
  let sourceOffset := inputs.sourceOffset batchIdx
  let columns := List.range (nextPowerOf2 acceptCapacity)
  let start := inputs.crossPositions.getD batchIdx 0 + if 0 < acceptLength then 1 else 0
  let positionColumns := List.range (nextPowerOf2 (acceptCapacity * K))
  let newSlots := count * K
  { hidden := []
    tokens := maskedStores columns (batchIdx * acceptCapacity)
      (fun column => decide (column < acceptCapacity))
      (fun column => load (fun address => inputs.flatChainTokens.getD address 0)
        (sourceOffset + min (column + 1) (count - 1)) (decide (column < count)) 0)
    chainMask := maskedStores columns (batchIdx * acceptCapacity)
      (fun column => decide (column < acceptCapacity)) (fun column => decide (column < count))
    posIds := maskedStores positionColumns (batchIdx * acceptCapacity * K)
      (fun column => decide (column < acceptCapacity * K))
      (fun column => start + 1 + ((column / K : Nat) : Int) + ((column % K : Nat) : Int))
    nPerReq := [(batchIdx, count)]
    acceptOverflow := [(batchIdx, decide (acceptCapacity < count))]
    startPositions := [(batchIdx, start)]
    crossCounts := [(batchIdx, inputs.existingCrossCounts.getD batchIdx 0 + newSlots)]
    newCrossValidSlots := [(batchIdx, newSlots)] }

/-- Stores of all programs of both launches. -/
def launchStores [Zero V] [Zero T] (inputs : RefreshInputs V T) (K acceptCapacity : Nat) :
    BufferStores V T :=
  let programs := (List.range inputs.batchSize).map (inputs.packRefreshMetadata K acceptCapacity)
  let hiddenBlocks := (inputs.flatChainHidden.width + blockHidden - 1) / blockHidden
  { hidden := (List.range (inputs.batchSize * acceptCapacity)).flatMap (fun row =>
      (List.range hiddenBlocks).flatMap (inputs.packRefreshHidden acceptCapacity row))
    tokens := programs.flatMap BufferStores.tokens
    posIds := programs.flatMap BufferStores.posIds
    nPerReq := programs.flatMap BufferStores.nPerReq
    chainMask := programs.flatMap BufferStores.chainMask
    acceptOverflow := programs.flatMap BufferStores.acceptOverflow
    startPositions := programs.flatMap BufferStores.startPositions
    crossCounts := programs.flatMap BufferStores.crossCounts
    newCrossValidSlots := programs.flatMap BufferStores.newCrossValidSlots }

/-- The launches lead from one state of the buffers to another. -/
structure Launched (stores : BufferStores V T) (empty filled : Buffers V T) : Prop where
  hidden : Outcome empty.hidden stores.hidden filled.hidden
  tokens : Outcome empty.tokens stores.tokens filled.tokens
  posIds : Outcome empty.posIds stores.posIds filled.posIds
  nPerReq : Outcome empty.nPerReq stores.nPerReq filled.nPerReq
  chainMask : Outcome empty.chainMask stores.chainMask filled.chainMask
  acceptOverflow : Outcome empty.acceptOverflow stores.acceptOverflow filled.acceptOverflow
  startPositions : Outcome empty.startPositions stores.startPositions filled.startPositions
  crossCounts : Outcome empty.crossCounts stores.crossCounts filled.crossCounts
  newCrossValidSlots :
    Outcome empty.newCrossValidSlots stores.newCrossValidSlots filled.newCrossValidSlots

/-- The launches with the programs in the order of their ids. -/
def BufferStores.run (stores : BufferStores V T) (empty : Buffers V T) : Buffers V T where
  hidden := store empty.hidden stores.hidden
  tokens := store empty.tokens stores.tokens
  posIds := store empty.posIds stores.posIds
  nPerReq := store empty.nPerReq stores.nPerReq
  chainMask := store empty.chainMask stores.chainMask
  acceptOverflow := store empty.acceptOverflow stores.acceptOverflow
  startPositions := store empty.startPositions stores.startPositions
  crossCounts := store empty.crossCounts stores.crossCounts
  newCrossValidSlots := store empty.newCrossValidSlots stores.newCrossValidSlots

theorem BufferStores.run_launched (stores : BufferStores V T) (empty : Buffers V T) :
    Launched stores empty (stores.run empty) :=
  ⟨.listed _ _, .listed _ _, .listed _ _, .listed _ _, .listed _ _, .listed _ _, .listed _ _,
    .listed _ _, .listed _ _⟩

/-- The filled buffers as tensors of the plan's shapes. -/
def Buffers.plan (filled : Buffers V T) (batchSize capacity K hiddenSize : Nat) :
    SpecBlockRefreshTensorPlan V T where
  hidden := (List.range batchSize).map (fun row => (List.range capacity).map (fun column =>
    (List.range hiddenSize).map (fun offset =>
      filled.hidden ((row * capacity + column) * hiddenSize + offset))))
  tokens := view batchSize capacity filled.tokens
  posIds := view batchSize (capacity * K) filled.posIds
  nPerReq := (List.range batchSize).map filled.nPerReq
  chainMask := view batchSize capacity filled.chainMask
  acceptOverflow := (List.range batchSize).map filled.acceptOverflow
  startPositions := (List.range batchSize).map filled.startPositions
  crossLoc := none
  crossCounts := (List.range batchSize).map filled.crossCounts
  newCrossValidSlots := (List.range batchSize).map filled.newCrossValidSlots
  crossOverflow := none

/-- The fused planner returns a plan: freshly allocated buffers of any content, filled by both
launches with the programs in any order. -/
def BuildsCuda [Zero V] [Zero T] (inputs : RefreshInputs V T) (K : Nat)
    (plan : SpecBlockRefreshTensorPlan V T) : Prop :=
  ∃ empty filled : Buffers V T, Launched (inputs.launchStores K (inputs.acceptCapacity K)) empty filled ∧
    plan = filled.plan inputs.batchSize (inputs.acceptCapacity K) K inputs.flatChainHidden.width

end RefreshInputs

end SpecBlock.Serving
